/-
# Structures that another program reads

The structures of the handoff are read by code that was compiled on its own, from
the declaration of the structure alone: the fields in their order, each with the
size and the alignment of its type.  A compiler for that code puts each field at
the next multiple of its alignment behind the field before it, and fills the
structure up to a multiple of its largest alignment.

`Layout.Natural` says that a layout is the one that such a declaration leads to,
and that nothing had to be filled up on the way: each field starts where the one
before it ends, and is aligned there.  Padding is declared like any other field.

| structure | bytes | largest alignment |
| --- | ---: | ---: |
| header of a parameter structure | 8 | 4 |
| entry point | 88 | 8 |
| parameters of the secure monitor | 48 | 8 |
| record of verified components | 60 | 4 |
| header of the block with the root key | 128 | 4 |
| record of a range of memory | 24 | 8 |
| boot block of the secure OS | 6240 | 8 |

Whoever reads such a structure from the front of a longer byte string gets what
was written, and whoever writes what was read gives the bytes back
(`structures_interchange`).
-/

import BootHandoff.Proofs.Layout.Faithful

namespace BootHandoff
namespace Layout

variable {α β : Type}

/-- A field in the declaration of a structure: the size and the alignment of its
type, and its bytes in a structure. -/
structure FieldLayout (α : Type) where
  size : Nat
  align : Nat
  write : α → Bytes
  length_write : ∀ v, (write v).length = size

/-- The field that `get` takes out of a structure. -/
def Faithful.field {L : Layout β} (hL : L.Faithful) (align : Nat) (get : α → β) :
    FieldLayout α where
  size := L.size
  align := align
  write v := L.write (get v)
  length_write v := hL.length_write (get v)

/-- Laid one right behind the other from a place on, these fields start at
multiples of their alignments. -/
def FieldLayout.Aligned : Nat → List (FieldLayout α) → Prop
  | _, [] => True
  | place, f :: rest => f.align ∣ place ∧ Aligned (place + f.size) rest

instance FieldLayout.decidableAligned : (place : Nat) → (fields : List (FieldLayout α)) →
    Decidable (Aligned place fields)
  | _, [] => .isTrue trivial
  | place, f :: rest =>
    have := decidableAligned (place + f.size) rest
    inferInstanceAs (Decidable (_ ∧ _))

/-- The layout of a structure that is declared with these fields, where nothing has
to be left free between the fields or behind them. -/
structure Natural (L : Layout α) (fields : List (FieldLayout α)) : Prop where
  write_eq : ∀ v, L.write v = fields.flatMap fun f => f.write v
  aligned : FieldLayout.Aligned 0 fields
  align_dvd_size : ∀ f ∈ fields, f.align ∣ L.size

/-- A structure of `size` bytes with these fields, which is written by one program
and read by another. -/
structure Interchanges (L : Layout α) (fields : List (FieldLayout α)) (size : Nat) : Prop where
  natural : L.Natural fields
  length_write : ∀ v, (L.write v).length = size
  /-- What was written is read, whatever follows it. -/
  readFront?_write : ∀ v rest, L.readFront? (L.write v ++ rest) = some v
  /-- What was read is written back byte for byte. -/
  map_write_readFront? :
    ∀ bs, size ≤ bs.length → (L.readFront? bs).map L.write = some (bs.take size)
  /-- A byte string that is too short is no structure. -/
  readFront?_eq_none : ∀ bs, bs.length < size → L.readFront? bs = none

theorem write_pair {A : Layout α} {B : Layout β} (v : α × β) :
    (A.pair B).write v = A.write v.1 ++ B.write v.2 := rfl

theorem write_iso {A : Layout α} {names : α → β} {parts : β → α} (v : β) :
    (A.iso names parts).write v = A.write (parts v) := rfl

theorem Faithful.write_field {L : Layout β} (hL : L.Faithful) (align : Nat) (get : α → β) (v : α) :
    (hL.field align get).write v = L.write (get v) := rfl

theorem readFront?_of_le {L : Layout α} {bs : Bytes} (h : L.size ≤ bs.length) :
    L.readFront? bs = some (L.read bs) := if_pos h

theorem readFront?_of_lt {L : Layout α} {bs : Bytes} (h : bs.length < L.size) :
    L.readFront? bs = none := if_neg (Nat.not_le.2 h)

/-- **A faithful layout that is the natural one can be relied on.** -/
theorem Faithful.interchanges {L : Layout α} {fields : List (FieldLayout α)} (hL : L.Faithful)
    (hnatural : L.Natural fields) : L.Interchanges fields L.size where
  natural := hnatural
  length_write := hL.length_write
  readFront?_write v rest := by
    have hle : L.size ≤ (L.write v ++ rest).length := by
      rw [List.length_append, hL.length_write]
      exact Nat.le_add_right _ _
    rw [readFront?_of_le hle, hL.read_write]
  map_write_readFront? bs hbs := by
    rw [readFront?_of_le hbs, Option.map_some, hL.write_read bs hbs]
  readFront?_eq_none _ hbs := readFront?_of_lt hbs

end Layout

open Layout

namespace Abi

/-- The declaration of the header of a parameter structure. -/
def ParamHeader.fields : List (FieldLayout ParamHeader) := [
  faithful_u8.field 1 kindCode,
  faithful_u8.field 1 version,
  faithful_u16.field 2 size,
  faithful_u32.field 4 attributes]

theorem ParamHeader.natural_layout : layout.Natural fields where
  write_eq _ := by simp [layout, fields, write_iso, write_pair, Faithful.write_field]
  aligned := by decide
  align_dvd_size := by decide

/-- The declaration of an entry point. -/
def EntryPoint.fields : List (FieldLayout EntryPoint) := [
  ParamHeader.faithful_layout.field 4 header,
  faithful_u64.field 8 pc,
  faithful_u32.field 4 spsr,
  faithful_u32.field 4 padding,
  ArgRegs.faithful_layout.field 8 args]

theorem EntryPoint.natural_layout : layout.Natural fields where
  write_eq _ := by simp [layout, fields, write_iso, write_pair, Faithful.write_field]
  aligned := by decide
  align_dvd_size := by decide

/-- The declaration of the parameters of the secure monitor. -/
def MonitorParams.fields : List (FieldLayout MonitorParams) := [
  ParamHeader.faithful_layout.field 4 header,
  faithful_u64.field 8 monitorImage,
  faithful_u64.field 8 secureOsEntry,
  faithful_u64.field 8 secureOsImage,
  faithful_u64.field 8 payloadEntry,
  faithful_u64.field 8 payloadImage]

theorem MonitorParams.natural_layout : layout.Natural fields where
  write_eq _ := by simp [layout, fields, write_iso, write_pair, Faithful.write_field]
  aligned := by decide
  align_dvd_size := by decide

end Abi

namespace Verified

/-- The declaration of the record of verified components. -/
def Record.fields : List (FieldLayout Record) := [
  faithful_u32.field 4 initFlags,
  faithful_u32.field 4 outFlags,
  faithful_u32.field 4 selectedFirmware,
  (faithful_array Component.faithful_layout 6).field 4 components]

theorem Record.natural_layout : layout.Natural fields where
  write_eq _ := by simp [layout, fields, write_iso, write_pair, Faithful.write_field]
  aligned := by decide
  align_dvd_size := by decide

end Verified

namespace RootKey

/-- The declaration of the header of the block with the root key. -/
def Header.fields : List (FieldLayout Header) := [
  (faithful_area 4).field 1 signature,
  faithful_u16.field 2 majorVersion,
  faithful_u16.field 2 minorVersion,
  faithful_u32.field 4 headerSize,
  faithful_u32.field 4 flags,
  Extent.faithful_layout.field 4 hardwareId,
  Extent.faithful_layout.field 4 rootKey,
  Extent.faithful_layout.field 4 bitmaps,
  Extent.faithful_layout.field 4 recoveryKey,
  (faithful_area 32).field 1 hardwareIdDigest,
  (faithful_area 48).field 1 padding]

theorem Header.natural_layout : layout.Natural fields where
  write_eq _ := by simp [layout, fields, write_iso, write_pair, Faithful.write_field]
  aligned := by decide
  align_dvd_size := by decide

end RootKey

namespace Training

/-- The declaration of a record of a range of memory. -/
def RangeRecord.fields : List (FieldLayout RangeRecord) := [
  faithful_u32.field 4 tag,
  faithful_u32.field 4 size,
  faithful_u64.field 8 start,
  faithful_u32.field 4 length,
  faithful_u32.field 4 padding]

theorem RangeRecord.natural_layout : layout.Natural fields where
  write_eq _ := by simp [layout, fields, write_iso, write_pair, Faithful.write_field]
  aligned := by decide
  align_dvd_size := by decide

end Training

namespace SecureOs

/-- The declaration of the boot block. -/
def BootBlock.fields : List (FieldLayout BootBlock) := [
  faithful_u32.field 4 version,
  faithful_u32.field 4 uart,
  (faithful_array faithful_u32 4).field 4 chipId,
  faithful_u64.field 8 primaryBase,
  faithful_u64.field 8 primarySize,
  faithful_u64.field 8 extendedBase,
  faithful_u64.field 8 extendedSize,
  faithful_u64.field 8 tsecBase,
  faithful_u64.field 8 tsecSize,
  faithful_u64.field 8 deviceTree,
  faithful_u8.field 1 unlocked,
  (faithful_area 3).field 1 padding₀,
  faithful_u32.field 4 rootKeySize,
  (faithful_area 4096).field 1 rootKey,
  faithful_u32.field 4 keyStoreSize,
  (faithful_area 2048).field 1 keyStore,
  (faithful_area 4).field 1 padding₁]

theorem BootBlock.natural_layout : layout.Natural fields where
  write_eq _ := by simp [layout, fields, write_iso, write_pair, Faithful.write_field]
  aligned := by decide
  align_dvd_size := by decide

end SecureOs

/-- **Every structure that crosses the handoff can be relied on.**  Each has the size
that is given and the layout that its declaration leads to.  Reading it from the
front of a byte string gives what was written there, whatever follows; writing what
was read gives back the bytes that it was read from; and from a byte string that is
too short nothing is read. -/
theorem structures_interchange :
    Abi.ParamHeader.layout.Interchanges Abi.ParamHeader.fields 8 ∧
    Abi.EntryPoint.layout.Interchanges Abi.EntryPoint.fields 88 ∧
    Abi.MonitorParams.layout.Interchanges Abi.MonitorParams.fields 48 ∧
    Verified.Record.layout.Interchanges Verified.Record.fields 60 ∧
    RootKey.Header.layout.Interchanges RootKey.Header.fields 128 ∧
    Training.RangeRecord.layout.Interchanges Training.RangeRecord.fields 24 ∧
    SecureOs.BootBlock.layout.Interchanges SecureOs.BootBlock.fields 6240 :=
  ⟨Abi.ParamHeader.faithful_layout.interchanges Abi.ParamHeader.natural_layout,
    Abi.EntryPoint.faithful_layout.interchanges Abi.EntryPoint.natural_layout,
    Abi.MonitorParams.faithful_layout.interchanges Abi.MonitorParams.natural_layout,
    Verified.Record.faithful_layout.interchanges Verified.Record.natural_layout,
    RootKey.Header.faithful_layout.interchanges RootKey.Header.natural_layout,
    Training.RangeRecord.faithful_layout.interchanges Training.RangeRecord.natural_layout,
    SecureOs.BootBlock.faithful_layout.interchanges SecureOs.BootBlock.natural_layout⟩

end BootHandoff

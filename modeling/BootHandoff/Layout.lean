/-
# Fixed layouts of structures in memory

A layout says how many bytes a structure takes, what they are for a given
value, and which value given bytes stand for.  Layouts of structures are put
together from layouts of their fields, laid one behind the other, least
significant byte first, so every byte belongs to exactly one field; padding is
a field like any other.

| layout | of |
| --- | --- |
| `u8`, `u16`, `u32`, `u64` | little-endian words |
| `area n` | `n` bytes as they are |
| `pair` | two fields, one behind the other |
| `array n` | `n` elements, one behind the other |
| `iso` | a structure that holds the same as another |
-/

import BootHandoff.Bytes.LittleEndian

namespace BootHandoff

/-- How values of a type lie in memory. -/
structure Layout (α : Type) where
  /-- The number of bytes. -/
  size : Nat
  /-- The bytes of a value. -/
  write : α → Bytes
  /-- The value that stands at the front of a byte string of at least `size`
  bytes. -/
  read : Bytes → α

namespace Layout

/-- Reads a structure off the front of a byte string that may be too short for
it.  What follows the structure is not looked at. -/
def readFront? {α : Type} (L : Layout α) (bs : Bytes) : Option α :=
  if L.size ≤ bs.length then some (L.read bs) else none

/-- Reads a structure from a byte string of exactly its size. -/
def readExact? {α : Type} (L : Layout α) (bs : Bytes) : Option α :=
  if bs.length = L.size then some (L.read bs) else none

/-- A layout is faithful if writing and reading are inverse to each other:
values have their size, what was written is read back whatever follows it, and
what was read is written back byte for byte. -/
structure Faithful {α : Type} (L : Layout α) : Prop where
  length_write : ∀ v, (L.write v).length = L.size
  read_write : ∀ v rest, L.read (L.write v ++ rest) = v
  write_read : ∀ bs, L.size ≤ bs.length → L.write (L.read bs) = bs.take L.size

/-- One byte. -/
def u8 : Layout UInt8 where
  size := 1
  write v := [v]
  read bs := bs.headD 0

/-- A 16-bit word. -/
def u16 : Layout UInt16 where
  size := 2
  write v := Bytes.toLE 2 v.toNat
  read bs := UInt16.ofNat (Bytes.ofLE (bs.take 2))

/-- A 32-bit word. -/
def u32 : Layout UInt32 where
  size := 4
  write v := Bytes.toLE 4 v.toNat
  read bs := UInt32.ofNat (Bytes.ofLE (bs.take 4))

/-- A 64-bit word. -/
def u64 : Layout UInt64 where
  size := 8
  write v := Bytes.toLE 8 v.toNat
  read bs := UInt64.ofNat (Bytes.ofLE (bs.take 8))

/-- `n` bytes as they are. -/
def area (n : Nat) : Layout (Buffer n) where
  size := n
  write v := v.bytes
  read bs := Buffer.ofFront n bs

/-- Two fields, the second right behind the first. -/
def pair {α β : Type} (A : Layout α) (B : Layout β) : Layout (α × β) where
  size := A.size + B.size
  write v := A.write v.1 ++ B.write v.2
  read bs := (A.read bs, B.read (bs.drop A.size))

/-- `n` elements, one behind the other. -/
def array {α : Type} (A : Layout α) (n : Nat) : Layout (Vector α n) where
  size := A.size * n
  write v := v.toList.flatMap A.write
  read bs := Vector.ofFn fun i => A.read (bs.drop (A.size * i))

/-- A structure that holds what another holds, under names of its own. -/
def iso {α β : Type} (A : Layout α) (names : α → β) (parts : β → α) : Layout β where
  size := A.size
  write v := A.write (parts v)
  read bs := names (A.read bs)

end Layout
end BootHandoff

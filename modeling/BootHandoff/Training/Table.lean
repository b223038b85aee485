/-
# The table that memory training leaves

Training leaves a table with its results for every memory frequency.  The
payload finds the table through a record of a range of memory:

| bytes | field |
| --- | --- |
| 0-3 | tag `2b` |
| 4-7 | size of the record |
| 8-15 | start of the range |
| 16-19 | length of the range |
| 20-23 | padding |
-/

import BootHandoff.Layout

namespace BootHandoff
namespace Training

/-- The number of entries that a table has at most. -/
def maxEntries : Nat := 20

/-- The bytes of an entry. -/
def entrySize : Nat := 4880

/-- The bytes that a table has at most. -/
def maxTableSize : Nat := maxEntries * entrySize

/-- A record of a range of memory. -/
structure RangeRecord where
  tag : UInt32
  size : UInt32
  start : UInt64
  length : UInt32
  padding : UInt32
  deriving DecidableEq, Repr, Inhabited

namespace RangeRecord

/-- How a record lies in memory. -/
def layout : Layout RangeRecord :=
  (Layout.u32.pair (Layout.u32.pair (Layout.u64.pair (Layout.u32.pair Layout.u32)))).iso
    (fun (tag, size, start, length, padding) => ⟨tag, size, start, length, padding⟩)
    (fun r => (r.tag, r.size, r.start, r.length, r.padding))

end RangeRecord

/-- A table in its final place. -/
structure Table where
  start : UInt64
  size : UInt64
  deriving DecidableEq, Repr, Inhabited

/-- The tag of the record for the table. -/
def tableTag : UInt32 := 0x2b

/-- The record through which the payload finds the table.  It keeps the low 32
bits of the table's size. -/
def Table.record (t : Table) : RangeRecord :=
  ⟨tableTag, UInt32.ofNat RangeRecord.layout.size, t.start, t.size.toUInt32, 0⟩

end Training
end BootHandoff

/-
# Regions of the boot flash

A region is an offset and a length, both 32-bit words, as the flash map and
the headers on the flash give them.  Nothing promises that the end of a region
is still a 32-bit word.
-/

import BootHandoff.Word

namespace BootHandoff
namespace Flash

/-- A range of bytes on the boot flash. -/
structure Region where
  offset : UInt32
  len : UInt32
  deriving DecidableEq, Repr, Inhabited

/-- The part of a region that starts `start` bytes in and is `len` bytes long,
or `none` if some of it lies outside the region or cannot be addressed. -/
def Region.subrange? (r : Region) (start len : UInt32) : Option Region := do
  let stop ← Word.add32? start len
  if r.len < stop then none
  else
    let offset ← Word.add32? r.offset start
    return ⟨offset, len⟩

/-- A part of a region is what was asked for, and lies within the region. -/
theorem Region.subrange?_eq_some_iff {r s : Region} {start len : UInt32} :
    r.subrange? start len = some s ↔
      start.toNat + len.toNat ≤ r.len.toNat ∧ r.offset.toNat + start.toNat = s.offset.toNat ∧
        s.len = len := by
  unfold subrange?
  rw [Option.bind_eq_bind, Option.bind_eq_some_iff]
  constructor
  · rintro ⟨stop, hstop, hrest⟩
    split at hrest
    · cases hrest
    · rename_i hinside
      obtain ⟨offset, hoffset, hregion⟩ := Option.bind_eq_some_iff.1 hrest
      obtain rfl := Option.some.inj hregion
      rw [UInt32.lt_iff_toNat_lt, ← Word.add32?_eq_some_iff.1 hstop] at hinside
      exact ⟨Nat.not_lt.1 hinside, Word.add32?_eq_some_iff.1 hoffset, rfl⟩
  · rintro ⟨hinside, hoffset, rfl⟩
    have hlt : start.toNat + s.len.toNat < UInt32.size := Nat.lt_of_le_of_lt hinside r.len.toNat_lt
    have hstop : Word.add32? start s.len = some (start + s.len) := if_pos hlt
    refine ⟨_, hstop, ?_⟩
    rw [if_neg, Word.add32?_eq_some_iff.2 hoffset]
    · rfl
    · rw [UInt32.lt_iff_toNat_lt, ← Word.add32?_eq_some_iff.1 hstop]
      exact Nat.not_lt.2 hinside

end Flash
end BootHandoff

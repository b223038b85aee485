/-
# Parts of parts of a region

A region of the flash can be narrowed more than once: to a block, then to a key in the block.
Whoever has the smaller region must not get from it what the larger one would not have given.
Neither region has to end within the 32-bit words, and of the sums that are made, each may leave
them on its own.

They leave them together.  A part of a part is refused exactly where the same part, asked for at
once, is refused, or where it ends behind the part that it is taken from
(`subrange?_subrange?`); and in that case the sum of both starts is a word, as it is below the
length of the outer region.
-/

import BootHandoff.Flash.Region
import Mathlib.Algebra.Group.Nat.Defs

namespace BootHandoff
namespace Flash
namespace Region

variable {r s t : Region} {start len start' len' : UInt32}

/-- All bytes of a region are bytes of another one, over the unbounded numbers. -/
def Within (s r : Region) : Prop :=
  r.offset.toNat ≤ s.offset.toNat ∧
    s.offset.toNat + s.len.toNat ≤ r.offset.toNat + r.len.toNat

theorem Within.trans (hts : t.Within s) (hsr : s.Within r) : t.Within r := by
  obtain ⟨hlow, hhigh⟩ := hts
  obtain ⟨hlow', hhigh'⟩ := hsr
  exact ⟨by omega, by omega⟩

/-- A part of a region has no byte outside of it. -/
theorem within_of_subrange? (h : r.subrange? start len = some s) : s.Within r := by
  obtain ⟨hinside, hoffset, rfl⟩ := subrange?_eq_some_iff.1 h
  exact ⟨by omega, by omega⟩

/-- **A part that is found is the one that was asked for,** and it is found exactly if it ends
inside the region and starts at a 32-bit word. -/
theorem subrange?_eq_part_iff :
    r.subrange? start len = some s ↔
      start.toNat + len.toNat ≤ r.len.toNat ∧ r.offset.toNat + start.toNat < 2 ^ 32 ∧
        s = ⟨r.offset + start, len⟩ := by
  rw [subrange?_eq_some_iff]
  refine and_congr_right fun _ => ⟨fun ⟨hoffset, hlen⟩ => ?_, ?_⟩
  · have hlt : r.offset.toNat + start.toNat < 2 ^ 32 := hoffset ▸ s.offset.toNat_lt
    have hsum : s.offset = r.offset + start :=
      UInt32.toNat.inj (by rw [UInt32.toNat_add, Nat.mod_eq_of_lt hlt, hoffset])
    exact ⟨hlt, by rw [← hsum, ← hlen]⟩
  · rintro ⟨hlt, rfl⟩
    exact ⟨by rw [UInt32.toNat_add, Nat.mod_eq_of_lt hlt], rfl⟩

theorem isSome_subrange?_iff :
    (r.subrange? start len).isSome = true ↔
      start.toNat + len.toNat ≤ r.len.toNat ∧ r.offset.toNat + start.toNat < 2 ^ 32 := by
  rw [Option.isSome_iff_exists]
  constructor
  · rintro ⟨s, hs⟩
    obtain ⟨hinside, hlt, -⟩ := subrange?_eq_part_iff.1 hs
    exact ⟨hinside, hlt⟩
  · rintro ⟨hinside, hlt⟩
    exact ⟨_, subrange?_eq_part_iff.2 ⟨hinside, hlt, rfl⟩⟩

/-- Inside a part, the sum of its start and a start in it is a word. -/
theorem toNat_add_start (h : r.subrange? start len = some s)
    (hinside : start'.toNat + len'.toNat ≤ len.toNat) :
    (start + start').toNat = start.toNat + start'.toNat := by
  obtain ⟨hpart, -, -⟩ := subrange?_eq_some_iff.1 h
  have hlen := r.len.toNat_lt
  rw [UInt32.toNat_add, Nat.mod_eq_of_lt (by omega)]

/-- **A part of a part is a part,** at the sum of both starts, unless it ends behind the part
that it is taken from. -/
theorem subrange?_subrange? (h : r.subrange? start len = some s) (start' len' : UInt32) :
    s.subrange? start' len' =
      if start'.toNat + len'.toNat ≤ len.toNat then r.subrange? (start + start') len'
      else none := by
  obtain ⟨hpart, hoffset, hlen⟩ := subrange?_eq_some_iff.1 h
  split
  · rename_i hinside
    have hsum := toNat_add_start h hinside
    -- Both are the region with the same offset, where there is one.
    refine Option.ext fun t => ?_
    rw [subrange?_eq_some_iff, subrange?_eq_some_iff, hsum, hlen]
    constructor
    · rintro ⟨-, hsame, hlen'⟩
      exact ⟨by omega, by omega, hlen'⟩
    · rintro ⟨-, hsame, hlen'⟩
      exact ⟨hinside, by omega, hlen'⟩
  · rename_i hbehind
    refine Option.eq_none_iff_forall_ne_some.2 fun t ht => hbehind ?_
    rw [← hlen]
    exact (subrange?_eq_some_iff.1 ht).1

/-- **Narrowing a region never leads out of it.**  Asking for a part always has an answer, and it
is a region exactly if the part ends inside and starts at a 32-bit word; the region is then the
one that was asked for, and within the first.  A part of it is answered as the same part of the
first region would be, at the sum of both starts, which is a word; one that would end behind it
is refused. -/
theorem subranges_nest (r : Region) (start len : UInt32) :
    ((r.subrange? start len).isSome = true ↔
      start.toNat + len.toNat ≤ r.len.toNat ∧ r.offset.toNat + start.toNat < 2 ^ 32) ∧
    ∀ s, r.subrange? start len = some s →
      (s.offset.toNat = r.offset.toNat + start.toNat ∧ s.len = len ∧ s.Within r) ∧
      ∀ start' len' : UInt32,
        (s.subrange? start' len' = if start'.toNat + len'.toNat ≤ len.toNat then
          r.subrange? (start + start') len' else none) ∧
        (start'.toNat + len'.toNat ≤ len.toNat →
          (start + start').toNat = start.toNat + start'.toNat) ∧
        ∀ t, s.subrange? start' len' = some t → t.Within r := by
  refine ⟨isSome_subrange?_iff, fun s hs => ⟨?_, fun start' len' => ?_⟩⟩
  · obtain ⟨-, hoffset, hlen⟩ := subrange?_eq_some_iff.1 hs
    exact ⟨hoffset.symm, hlen, within_of_subrange? hs⟩
  · exact ⟨subrange?_subrange? hs start' len', toNat_add_start hs,
      fun t ht => (within_of_subrange? ht).trans (within_of_subrange? hs)⟩

end Region
end Flash
end BootHandoff

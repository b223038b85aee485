/-
# The conditions for a root key

On a flash whose mappings show what it holds, everything about the root key is a matter of
eight conditions, which are looked at in this order:

| condition | error |
| --- | --- |
| the flash opens | that of the flash |
| its map has the block's area | `noArea` |
| the header of the area can be mapped | that of the flash |
| it starts with the signature | `badSignature` |
| the key ends inside the area | `outOfBounds` |
| the place of the key is a 32-bit address | `outOfBounds` |
| the key is no larger than the buffer | `tooLarge` |
| the key can be mapped | that of the flash |

The place and the size of the key are whatever stands in the header, and the conditions are
about their sums as numbers, which no word cuts off.  `Readable` has all eight, each in a
structure that extends the one before; `Misses` has an error for the first that fails.
`read_iff` says that there is nothing else to it: the key is read if and only if all hold,
and the error is that of the first one that does not.

A flash may answer differently each time it is asked.  So the conditions are about its
`Replies`: what it answers one after the other, each in the state that the one before left.
-/

import BootHandoff.Proofs.Flash.Subrange
import BootHandoff.Proofs.RootKey.Area

namespace BootHandoff
namespace RootKey

open Bench Flash Platform

/-- What a flash holds at each address. -/
abbrev Contents := Nat → UInt8

namespace Contents

/-- The bytes from a place on. -/
def slice (c : Contents) (start len : Nat) : Bytes := (List.range' start len).map c

/-- Where the header of an area says that the key is, from the start of the area. -/
def keyOffset (c : Contents) (area : Region) : UInt32 :=
  Layout.u32.read (c.slice (area.offset.toNat + 24) 4)

/-- The size of the key that the header of an area names. -/
def keySize (c : Contents) (area : Region) : UInt32 :=
  Layout.u32.read (c.slice (area.offset.toNat + 28) 4)

/-- Where the key is on the flash. -/
def keyRegion (c : Contents) (area : Region) : Region :=
  ⟨area.offset + c.keyOffset area, c.keySize area⟩

/-- If a range is mapped in this step, it shows what is held there. -/
def Maps (c : Contents) : Step → Prop
  | ⟨.mapFlash offset len, .ok shown⟩ => shown = c.slice offset.toNat len.toNat
  | _ => True

@[simp] theorem length_slice {c : Contents} {start len : Nat} :
    (c.slice start len).length = len := by
  rw [slice, List.length_map, List.length_range']

/-- A part of a slice is a slice. -/
theorem slice_slice (c : Contents) (start place : Nat) {size len : Nat}
    (h : place + size ≤ len) :
    ((c.slice start len).drop place).take size = c.slice (start + place) size := by
  obtain ⟨rest, rfl⟩ := Nat.exists_eq_add_of_le h
  have hsplit : List.range' start (place + size + rest) = List.range' start place ++
      (List.range' (start + place) size ++ List.range' (start + place + size) rest) := by
    rw [List.range'_append_1, List.range'_append_1, Nat.add_assoc]
  rw [slice, hsplit, List.map_append, List.map_append, List.drop_left' (by simp),
    List.take_left' (by simp), slice]

end Contents

/-- What a flash answers to the code that reads the root key. -/
structure Replies where
  opening : Except FlashError Unit
  /-- The area of the block in the flash map. -/
  area? : Option Region
  /-- The mapping of the header, if that is the area. -/
  header (area : Region) : Except FlashError Bytes
  /-- The mapping of the key, if it is there. -/
  key (area region : Region) : Except FlashError Bytes

/-- What a platform answers, from a state on. -/
def Replies.of {σ : Type} (m : Machine σ) (u : σ) : Replies :=
  let opened := m.respond .openFlash u
  let found := m.respond (.findArea "GBB") opened.2
  let header area := m.respond (.mapFlash area.offset 128) found.2
  { opening := opened.1
    area? := found.1
    header := fun area => (header area).1
    key := fun area region =>
      (m.respond (.mapFlash region.offset region.len) (header area).2).1 }

namespace Replies

section Conditions

variable (R : Replies) (c : Contents) (n : Nat) (area : Region)

/-- The flash opens. -/
structure Opens : Prop where
  opens : R.opening = .ok ()

/-- Its map has the block's area. -/
structure HasArea : Prop extends R.Opens where
  found : R.area? = some area

/-- The header can be mapped. -/
structure HasHeader : Prop extends R.HasArea area where
  mapsHeader : ∃ shown, R.header area = .ok shown

/-- The area starts with the signature. -/
structure Signed : Prop extends R.HasHeader area where
  signature : c.slice area.offset.toNat 4 = signature.bytes

/-- The key ends inside the area. -/
structure Inside : Prop extends R.Signed c area where
  inside : (c.keyOffset area).toNat + (c.keySize area).toNat ≤ area.len.toNat

/-- The key is at a 32-bit address. -/
structure Placed : Prop extends R.Inside c area where
  placed : area.offset.toNat + (c.keyOffset area).toNat < 2 ^ 32

/-- The key fits into `n` bytes. -/
structure Fits : Prop extends R.Placed c area where
  fits : (c.keySize area).toNat ≤ n

/-- The key can be mapped. -/
structure Readable : Prop extends R.Fits c n area where
  mapsKey : ∃ shown, R.key area (c.keyRegion area) = .ok shown

/-- One of the conditions fails, those before it hold, and this is its error. -/
inductive Misses : Error → Prop where
  | opens {e : FlashError} (herror : R.opening = .error e) : Misses (.flash e)
  | found (h : R.Opens) (hnone : R.area? = none) : Misses .noArea
  | mapsHeader {area : Region} {e : FlashError} (h : R.HasArea area)
      (herror : R.header area = .error e) : Misses (.flash e)
  | signature {area : Region} (h : R.HasHeader area)
      (hother : c.slice area.offset.toNat 4 ≠ signature.bytes) : Misses .badSignature
  | inside {area : Region} (h : R.Signed c area)
      (hout : ¬(c.keyOffset area).toNat + (c.keySize area).toNat ≤ area.len.toNat) :
      Misses (.outOfBounds (c.keyOffset area) (c.keySize area))
  | placed {area : Region} (h : R.Inside c area)
      (hout : ¬area.offset.toNat + (c.keyOffset area).toNat < 2 ^ 32) :
      Misses (.outOfBounds (c.keyOffset area) (c.keySize area))
  | fits {area : Region} (h : R.Placed c area) (hlarge : ¬(c.keySize area).toNat ≤ n) :
      Misses (.tooLarge (c.keySize area) n)
  | mapsKey {area : Region} {e : FlashError} (h : R.Fits c n area)
      (herror : R.key area (c.keyRegion area) = .error e) : Misses (.flash e)

end Conditions

variable {R : Replies} {c : Contents} {n : Nat} {area : Region}

attribute [grind cases] Opens HasArea HasHeader Signed Inside Placed Fits Readable

/-- There is one area. -/
theorem HasArea.unique {area' : Region} (h : R.HasArea area) (h' : R.HasArea area') :
    area = area' := Option.some.inj (h.found.symm.trans h'.found)

/-- Where a condition fails, not all hold. -/
theorem Misses.not_readable {e : Error} (h : R.Misses c n e) : ¬R.Readable c n area := by
  intro hread
  cases h <;> grind

/-- There is one first condition that fails. -/
theorem Misses.unique {e e' : Error} (h : R.Misses c n e) (h' : R.Misses c n e') : e = e' := by
  -- Of two different conditions, the later one is only reached if the earlier one holds.
  cases h <;> cases h' <;> grind

/-- The signature that is read from an exact mapping is what stands there. -/
theorem signature_read_iff (c : Contents) (area : Region) :
    (Header.layout.read (c.slice area.offset.toNat 128)).signature = signature ↔
      c.slice area.offset.toNat 4 = signature.bytes := by
  have hfront : (c.slice area.offset.toNat 128).take 4 = c.slice area.offset.toNat 4 :=
    c.slice_slice area.offset.toNat 0 (by decide)
  have hbytes : (Header.layout.read (c.slice area.offset.toNat 128)).signature.bytes =
      c.slice area.offset.toNat 4 := by
    rw [Header.signature_read, Buffer.ofFront, Buffer.bytes_overwrite, hfront,
      Contents.length_slice, List.drop_of_length_le (by decide), List.append_nil]
  rw [Buffer.ext_iff, hbytes]

/-- The place of the key that is read from an exact mapping is what stands there. -/
theorem rootKey_read (c : Contents) (area : Region) :
    (Header.layout.read (c.slice area.offset.toNat 128)).rootKey =
      ⟨c.keyOffset area, c.keySize area⟩ := by
  have hword : ∀ place, place + 4 ≤ 128 →
      Layout.u32.read ((c.slice area.offset.toNat 128).drop place) =
        Layout.u32.read (c.slice (area.offset.toNat + place) 4) := fun place hle => by
    have hpart := c.slice_slice area.offset.toNat place hle
    show UInt32.ofNat (Bytes.ofLE _) = UInt32.ofNat (Bytes.ofLE _)
    rw [hpart, List.take_of_length_le (Nat.le_of_eq Contents.length_slice)]
  rw [Header.rootKey_read, hword 24 (by decide), hword 28 (by decide)]
  rfl

/-- A region inside an area is where the header says. -/
theorem subrange?_eq_some_iff {region : Region} :
    area.subrange? (c.keyOffset area) (c.keySize area) = some region ↔
      (c.keyOffset area).toNat + (c.keySize area).toNat ≤ area.len.toNat ∧
        area.offset.toNat + (c.keyOffset area).toNat < 2 ^ 32 ∧ region = c.keyRegion area :=
  Region.subrange?_eq_part_iff

/-- The region of the key lies in a signed area, or one of the conditions about it fails. -/
theorem Signed.subrange_cases (h : R.Signed c area) (n : Nat) :
    (area.subrange? (c.keyOffset area) (c.keySize area) = none ∧
        R.Misses c n (.outOfBounds (c.keyOffset area) (c.keySize area))) ∨
      area.subrange? (c.keyOffset area) (c.keySize area) = some (c.keyRegion area) ∧
        R.Placed c area := by
  cases hregion : area.subrange? (c.keyOffset area) (c.keySize area) with
  | some region =>
    obtain ⟨hinside, hplaced, rfl⟩ := subrange?_eq_some_iff.1 hregion
    exact .inr ⟨rfl, ⟨h, hinside⟩, hplaced⟩
  | none =>
    refine .inl ⟨rfl, ?_⟩
    by_cases hinside : (c.keyOffset area).toNat + (c.keySize area).toNat ≤ area.len.toNat
    · refine .placed ⟨h, hinside⟩ fun hplaced => ?_
      have hsome := subrange?_eq_some_iff.2 ⟨hinside, hplaced, rfl⟩
      rw [hregion] at hsome
      cases hsome
    · exact .inside h hinside

/-- **What an exact mapping of the header decides**: the key is placed, or one of the
conditions up to there fails. -/
theorem HasArea.placed_cases (h : R.HasArea area) (n : Nat)
    (hexact : ∀ shown, R.header area = .ok shown → shown = c.slice area.offset.toNat 128) :
    (∃ e, RootKey.placed area (R.header area) = .error e ∧ R.Misses c n e) ∨
      RootKey.placed area (R.header area) = .ok (c.keyRegion area) ∧ R.Placed c area := by
  cases hheader : R.header area with
  | error e => exact .inl ⟨.flash e, rfl, .mapsHeader h hheader⟩
  | ok shown =>
    obtain rfl := hexact shown hheader
    have hlen : Header.layout.size ≤ (c.slice area.offset.toNat 128).length :=
      Nat.le_of_eq Contents.length_slice.symm
    rw [placed_ok, if_pos hlen, placedBy, rootKey_read]
    by_cases hsignature : c.slice area.offset.toNat 4 = signature.bytes
    · rw [if_pos ((signature_read_iff c area).2 hsignature)]
      have hsigned : R.Signed c area := ⟨⟨h, _, hheader⟩, hsignature⟩
      rcases hsigned.subrange_cases n with ⟨hnone, hmisses⟩ | ⟨hsome, hplaced⟩
      · exact .inl ⟨_, by simp only [hnone], hmisses⟩
      · exact .inr ⟨by simp only [hsome], hplaced⟩
    · rw [if_neg (mt (signature_read_iff c area).1 hsignature)]
      exact .inl ⟨_, rfl, .signature ⟨h, _, hheader⟩ hsignature⟩

/-- A key that is placed and fits is copied to the front of the buffer. -/
theorem Fits.bytes_overwrite (h : R.Fits c n area) (buf : Buffer n) :
    (buf.overwrite (c.slice (c.keyRegion area).offset.toNat (c.keySize area).toNat)).bytes =
      c.slice (area.offset.toNat + (c.keyOffset area).toNat) (c.keySize area).toNat ++
        buf.bytes.drop (c.keySize area).toNat := by
  have hoffset : (c.keyRegion area).offset.toNat =
      area.offset.toNat + (c.keyOffset area).toNat :=
    (UInt32.toNat_add _ _).trans (Nat.mod_eq_of_lt h.placed)
  rw [Buffer.bytes_overwrite_of_le _ (Nat.le_trans (Nat.le_of_eq Contents.length_slice) h.fits),
    Contents.length_slice, hoffset]

/-- How reading the key ends: with the key in the buffer, or with the error of the first
condition that fails. -/
inductive Ends (R : Replies) (c : Contents) (buf : Buffer n) :
    Except (Stop Error) Nat × Buffer n → Prop where
  | read {area : Region} {t : Buffer n} (h : R.Readable c n area)
      (hbytes : t.bytes = c.slice (area.offset.toNat + (c.keyOffset area).toNat)
        (c.keySize area).toNat ++ buf.bytes.drop (c.keySize area).toNat) :
      Ends R c buf (.ok (c.keySize area).toNat, t)
  | missed {e : Error} (h : R.Misses c n e) : Ends R c buf (.error (.error e), buf)

variable {buf t : Buffer n} {ended : Except (Stop Error) Nat × Buffer n}

/-- Reading ends well if and only if all conditions hold. -/
theorem Ends.eq_ok_iff (h : R.Ends c buf ended) {size : Nat} :
    ended = (.ok size, t) ↔ ∃ area, R.Readable c n area ∧ size = (c.keySize area).toNat ∧
      t.bytes = c.slice (area.offset.toNat + (c.keyOffset area).toNat) size ++
        buf.bytes.drop size := by
  constructor
  · rintro rfl
    cases h with
    | @read area _ hread hbytes => exact ⟨area, hread, rfl, hbytes⟩
  · rintro ⟨area, hread, rfl, hbytes⟩
    cases h with
    | @read area' _ hread' hbytes' =>
      obtain rfl := hread.toHasArea.unique hread'.toHasArea
      rw [Buffer.ext (hbytes.trans hbytes'.symm)]
    | missed hmisses => exact absurd hread hmisses.not_readable

/-- Reading ends with an error if and only if it is that of the first condition that
fails. -/
theorem Ends.eq_error_iff (h : R.Ends c buf ended) {e : Error} :
    ended = (.error (.error e), t) ↔ R.Misses c n e ∧ t = buf := by
  constructor
  · rintro rfl
    cases h with
    | missed hmisses => exact ⟨hmisses, rfl⟩
  · rintro ⟨hmisses, rfl⟩
    cases h with
    | read hread => exact absurd hread hmisses.not_readable
    | missed hmisses' => rw [hmisses.unique hmisses']

/-- Reading does not halt. -/
theorem Ends.ne_halt (h : R.Ends c buf ended) (stop : Halt) : ended.1 ≠ .error (.halt stop) := by
  cases h <;> exact nofun

end Replies

section Run

variable {σ : Type} {m : Machine σ} {u : σ} {c : Contents} {n : Nat} {buf t : Buffer n}
  {steps : List Step} {result : Except (Stop Error) Nat}

/-- Where the key is looked for once the flash is open, and that it is asked for in the
state in which `Replies.of` has it asked. -/
theorem located {first rest : List Step} {located : Except (Stop Error) Region}
    (hlocate : locate.Path first located)
    (hanswers : m.Answers u (⟨.openFlash, .ok ()⟩ :: (first ++ rest)))
    (hexact : ∀ step ∈ ⟨.openFlash, .ok ()⟩ :: (first ++ rest), c.Maps step) (n : Nat) :
    (∃ e, located = .error (.error e) ∧ (Replies.of m u).Misses c n e) ∨
      ∃ area, located = .ok (c.keyRegion area) ∧ (Replies.of m u).Placed c area ∧
        ∀ region, (m.respond (.mapFlash region.offset region.len)
          (m.after (m.respond .openFlash u).2 first)).1 = (Replies.of m u).key area region := by
  obtain ⟨hopening, hanswers⟩ := hanswers
  have hopens : (Replies.of m u).Opens := ⟨hopening.symm⟩
  rcases path_locate hlocate with ⟨rfl, rfl⟩ | ⟨area, mapped, rfl, rfl⟩
  · exact .inl ⟨_, rfl, .found hopens hanswers.1.symm⟩
  obtain ⟨hfound, hmapped, -⟩ := hanswers
  have harea : (Replies.of m u).HasArea area := ⟨hopens, hfound.symm⟩
  obtain rfl : mapped = (Replies.of m u).header area := hmapped
  have hheader : ∀ shown, (Replies.of m u).header area = .ok shown →
      shown = c.slice area.offset.toNat 128 := fun shown hshown =>
    hexact ⟨.mapFlash area.offset headerLen, .ok shown⟩ (by simp [hshown])
  rcases harea.placed_cases n hheader with ⟨e, he, hmisses⟩ | ⟨hregion, hplaced⟩
  · exact .inl ⟨e, by rw [he]; rfl, hmisses⟩
  · exact .inr ⟨area, by rw [hregion]; rfl, hplaced, fun _ => rfl⟩

/-- **Each course of reading ends as the conditions say.** -/
theorem Reads.ends (h : Reads buf steps result t) (hanswers : m.Answers u steps)
    (hexact : ∀ step ∈ steps, c.Maps step) : (Replies.of m u).Ends c buf (result, t) := by
  cases h with
  | unopened e => exact .missed (.opens hanswers.1.symm)
  | missed hlocate =>
    obtain ⟨e, ⟨⟩, hmisses⟩ | ⟨_, ⟨⟩, -⟩ := located hlocate hanswers hexact n
    exact .missed hmisses
  | refused hlocate hlen =>
    obtain ⟨_, ⟨⟩, -⟩ | ⟨area, ⟨⟩, hplaced, -⟩ := located hlocate hanswers hexact n
    exact .missed (.fits hplaced hlen)
  | @mapped first region mapped _ _ hlocate hlen hcopied =>
    obtain ⟨_, ⟨⟩, -⟩ | ⟨area, ⟨⟩, hplaced, hkey⟩ := located hlocate hanswers hexact n
    have hfits : (Replies.of m u).Fits c n area := ⟨hplaced, hlen⟩
    have hreply : (Replies.of m u).key area (c.keyRegion area) = mapped :=
      (hkey _).symm.trans (Machine.answers_append.1 hanswers.2).2.1.symm
    cases mapped with
    | error e =>
      obtain ⟨rfl, rfl⟩ := Prod.mk.inj hcopied
      exact .missed (.mapsKey hfits hreply)
    | ok key =>
      obtain rfl := hexact ⟨.mapFlash (c.keyRegion area).offset (c.keyRegion area).len, .ok key⟩
        (by simp)
      rw [copied_ok, Contents.length_slice, if_pos hlen] at hcopied
      obtain ⟨rfl, rfl⟩ := Prod.mk.inj hcopied
      exact .read ⟨hfits, _, hreply⟩ (hfits.bytes_overwrite buf)

/-- **The root key is read if and only if all conditions hold, and otherwise the first that
fails is reported.**  On every flash whose mappings, where they succeed, show exactly the
bytes that were asked for, and for every buffer: reading returns a size if and only if the
key is readable, and then it is the size in the header, the buffer starts with that many
bytes from the place in the header, and the rest of it is as it was.  It ends with an error
if and only if that is the error of the first condition that fails, and then the buffer is
as it was.  It never halts. -/
theorem read_iff (m : Machine σ) (u : σ) (c : Contents) (buf : Buffer n)
    (hexact : ∀ step ∈ ((read.on buf).run m u).steps, c.Maps step) :
    let R := Replies.of m u
    let ended := ((read.on buf).run m u).value
    (∀ size t, ended = (.ok size, t) ↔
      ∃ area, R.Readable c n area ∧ size = (c.keySize area).toNat ∧
        t.bytes = c.slice (area.offset.toNat + (c.keyOffset area).toNat) size ++
          buf.bytes.drop size) ∧
    (∀ e t, ended = (.error (.error e), t) ↔ R.Misses c n e ∧ t = buf) ∧
    ∀ stop, ended.1 ≠ .error (.halt stop) := by
  intro R ended
  have hreads : Reads buf ((read.on buf).run m u).steps ended.1 ended.2 :=
    reads_of_path (Action.path_run m read buf u)
  have hends : R.Ends c buf ended := hreads.ends (Firmware.answers_run m _ u) hexact
  exact ⟨fun size t => hends.eq_ok_iff, fun e t => hends.eq_error_iff, hends.ne_halt⟩

end Run
section Chip

/-- What is read of a bank is a slice of what it holds. -/
theorem slice_byteAt (b : Bank) (start len : Nat) :
    Contents.slice b.byteAt start len = b.read start len := by
  refine List.ext_getElem? fun i => ?_
  rw [Contents.slice, List.getElem?_map]
  by_cases hi : i < len
  · rw [b.getElem?_read hi, List.getElem?_range' hi, Nat.one_mul]
    rfl
  · rw [List.getElem?_eq_none (by rw [List.length_range']; omega),
      List.getElem?_eq_none (by rw [Bank.length_read]; omega)]
    rfl

/-- A chip that is not told to show less maps what it holds. -/
theorem maps_of_mem_steps {α : Type} {x : Firmware α} {r : Rig} (hlimit : r.flash.mapLimit = none)
    {step : Step} (hstep : step ∈ (x.run Rig.machine r).steps) :
    Contents.Maps r.flash.bytes.byteAt step := by
  obtain ⟨t, ⟨hbytes, hlimit⟩, hanswer⟩ := Firmware.answered_of_invariant
    (I := fun t => t.flash.bytes = r.flash.bytes ∧ t.flash.mapLimit = none)
    (fun q t ht => ⟨(Rig.respond_bytes q t).trans ht.1, (Rig.respond_mapLimit q t).trans ht.2⟩)
    ⟨rfl, hlimit⟩ hstep
  obtain ⟨q, answer⟩ := step
  cases q with
  | mapFlash offset len =>
    cases answer with
    | error e => trivial
    | ok shown =>
      replace hanswer : .ok shown = t.flash.map offset len := hanswer
      unfold FlashChip.map at hanswer
      split at hanswer
      · rw [hlimit, hbytes] at hanswer
        exact (Except.ok.inj hanswer).trans (slice_byteAt _ _ _).symm
      · cases hanswer
  | _ => trivial

/-- The hypothesis is satisfiable: a key of sixteen bytes is readable for a buffer of
twenty, and too large for one of fifteen. -/
theorem read_iff_on_bench :
    let r := Rig.withBlock 32 0
    let c : Contents := r.flash.bytes.byteAt
    let R := Replies.of Rig.machine r
    let buf : Buffer 20 := Buffer.fill 20 0xaa
    let small : Buffer 15 := Buffer.fill 15 0xaa
    (∀ step ∈ ((read.on buf).run Rig.machine r).steps, c.Maps step) ∧
      (∃ area, R.Readable c 20 area ∧ 16 = (c.keySize area).toNat ∧
        ((read.on buf).run Rig.machine r).value.2.bytes =
          c.slice (area.offset.toNat + (c.keyOffset area).toNat) 16 ++ buf.bytes.drop 16) ∧
      R.Misses c 15 (.tooLarge 16 15) ∧ ((read.on small).run Rig.machine r).value.2 = small := by
  intro r c R buf small
  have hmaps : ∀ step ∈ ((read.on buf).run Rig.machine r).steps, c.Maps step :=
    fun step hstep => maps_of_mem_steps rfl hstep
  have hsmall : ∀ step ∈ ((read.on small).run Rig.machine r).steps, c.Maps step :=
    fun step hstep => maps_of_mem_steps rfl hstep
  have hok : ((read.on buf).run Rig.machine r).value.1 = .ok 16 := by decide +kernel
  have herror : ((read.on small).run Rig.machine r).value.1 =
      .error (.error (.tooLarge 16 15)) := by
    decide +kernel
  obtain ⟨hreadable, -⟩ := read_iff Rig.machine r c buf hmaps
  obtain ⟨-, hmisses, -⟩ := read_iff Rig.machine r c small hsmall
  refine ⟨hmaps, ?_, ?_⟩
  · generalize ((read.on buf).run Rig.machine r).value = ended at *
    obtain ⟨result, t⟩ := ended
    obtain rfl : result = .ok 16 := hok
    exact (hreadable 16 t).1 rfl
  · generalize ((read.on small).run Rig.machine r).value = ended at *
    obtain ⟨result, t⟩ := ended
    obtain rfl : result = .error (.error (.tooLarge 16 15)) := herror
    exact (hmisses (.tooLarge 16 15) t).1 rfl

end Chip
end RootKey
end BootHandoff

/-
# Finding product data where it was placed

`Placed` says where an area of the flash may keep product data: from byte `600`
of the area on, or from byte `610` on behind a header that gives its size.  In
either place the whole of the data lies in the area.

On a platform that shows the bytes of its flash as they are (`Shows`) the data is
found in both places (`path_fromFlash_of_placed`).  The one danger is to take a
header for data or data for a header.  A header cannot be overlooked, for it fits
into the area with its data; and data that starts with an item of text is no
header, for a header starts as a note does.
-/

import BootHandoff.ProductData.Blob
import BootHandoff.ProductData.Form
import BootHandoff.Proofs.Layout.Faithful
import BootHandoff.Proofs.Platform.Path
import BootHandoff.Proofs.SecureOs.Extent

namespace BootHandoff
namespace ProductData

open Flash Platform

/-- An answer of a platform whose flash map has an area for product data, and
whose flash holds these bytes and is mapped and read as it is. -/
def Shows (flash : Bytes) (area : Region) : Step → Prop
  | ⟨.findArea name, answer⟩ => name = areaName → answer = some area
  | ⟨.mapFlash offset len, answer⟩ => offset.toNat + len.toNat ≤ flash.length →
    answer = .ok ((flash.drop offset.toNat).take len.toNat)
  | ⟨.readFlash offset n buf, answer⟩ => offset.toNat + n ≤ flash.length →
    answer = (UInt64.ofNat n, buf.overwrite ((flash.drop offset.toNat).take n))
  | _ => True

/-- The area has room for product data and for a header, ends at an address at
most, and lies on the flash. -/
structure Hosts (flash : Bytes) (area : Region) : Prop where
  large : 0x610 < area.len.toNat
  addressable : area.offset.toNat + area.len.toNat ≤ 2 ^ 32
  inside : area.offset.toNat + area.len.toNat ≤ flash.length

/-- The data lies in an area of the flash, where product data is looked for. -/
inductive Placed (flash : Bytes) (area : Region) (data : Bytes) : Prop where
  /-- Behind a header with its size. -/
  | behindHeader (size : UInt32) (hsize : size.toNat = data.length)
      (hinside : 0x610 + data.length ≤ area.len.toNat)
      (hstands : SizeHeader.layout.write ⟨magic, size⟩ ++ data <+:
        flash.drop (area.offset.toNat + 0x600))
  /-- At once, with anything behind it. -/
  | direct (hinside : 0x600 + data.length ≤ area.len.toNat)
      (hstands : data <+: flash.drop (area.offset.toNat + 0x600))

/-- The region lies on the flash, and the data stands at its front. -/
def Keeps (flash : Bytes) (region : Region) (data : Bytes) : Prop :=
  region.offset.toNat + region.len.toNat ≤ flash.length ∧
    data <+: (flash.drop region.offset.toNat).take region.len.toNat

variable {ε : Type} {flash data : Bytes} {area : Region} {front : Buffer 16} {base size : UInt32}
  {steps : List Step}

namespace SizeHeader

theorem faithful_layout : layout.Faithful :=
  Layout.faithful_iso (Layout.faithful_pair (Layout.faithful_area 12) Layout.faithful_u32)
    (fun _ => rfl) fun _ => rfl

theorem region?_eq (front : Buffer 16) (base size : UInt32) :
    region? front base size =
      if (layout.read front.bytes).magic = ProductData.magic ∧
          (layout.read front.bytes).size.toNat + 16 ≤ size.toNat then
        (orOverflow (Word.add32? base headerLen)).map fun offset =>
          some ⟨offset, (layout.read front.bytes).size⟩
      else .ok none := by
  have hfront : layout.readFront? front.bytes = some (layout.read front.bytes) :=
    if_pos (Nat.le_of_eq front.length_bytes.symm)
  rw [region?, hfront]
  rfl

/-- **A header names what is behind it,** if that fits. -/
theorem region?_of_header {offset : UInt32} (header : SizeHeader)
    (hfront : front.bytes = layout.write header) (hmagic : header.magic = ProductData.magic)
    (hfits : header.size.toNat + 16 ≤ size.toNat) (hoffset : base.toNat + 16 = offset.toNat) :
    region? front base size = .ok (some ⟨offset, header.size⟩) := by
  have hread : layout.read front.bytes = header := by
    have h := faithful_layout.read_write header []
    rwa [List.append_nil, ← hfront] at h
  have hsum : Word.add32? base headerLen = some offset := Word.add32?_eq_some_iff.2 hoffset
  rw [region?_eq, hread, if_pos ⟨hmagic, hfits⟩, hsum]
  rfl

/-- **Data that starts with an item of text is no header.** -/
theorem region?_of_text (hfront : front.bytes.head? = some ItemKind.text.byte) :
    region? front base size = .ok none := by
  rw [region?_eq, if_neg]
  rintro ⟨hmagic, -⟩
  have hhead : (Buffer.ofFront 12 front.bytes).bytes.head? = ProductData.magic.bytes.head? :=
    congrArg (fun magic : Buffer 12 => magic.bytes.head?) hmagic
  obtain ⟨_ | ⟨b, bs⟩, hlength⟩ := front
  · cases hlength
  · obtain rfl := Option.some.inj hfront
    cases hhead

end SizeHeader

/-- The region of the data, after sixteen bytes were read at its place: if all of them arrived,
what they say as a header decides. -/
def regionBy (base size : UInt32) (answer : UInt64 × Buffer 16) :
    Except (Stop ε) (Option Region) :=
  ((if answer.1 = 16 then SizeHeader.region? answer.2 base size else .ok none).mapError
    Stop.halt).map fun named? => some (named?.getD ⟨base, size⟩)

theorem regionBy_of_ok {named? : Option Region}
    (h : SizeHeader.region? front base size = .ok named?) :
    (regionBy base size (16, front) : Except (Stop ε) _) =
      .ok (some (named?.getD ⟨base, size⟩)) := by
  rw [regionBy, if_pos rfl, h]
  rfl

/-- Looking for data in an area that is large enough, at a place with an address, reads sixteen
bytes there. -/
theorem path_locate {result : Except (Stop ε) (Option Region)} (hlarge : 0x610 < area.len.toNat)
    (hbase : area.offset.toNat + 0x600 = base.toNat)
    (h : (locate area : Task ε (Option Region)).Path steps result) :
    ∃ answer, steps = [⟨.readFlash base 16 (Buffer.zero 16), answer⟩] ∧
      result = regionBy base (area.len - dataOffset) answer := by
  have hroom : ¬area.len ≤ dataOffset + headerLen := by
    rw [UInt32.le_iff_toNat_le]
    exact Nat.not_le.2 hlarge
  have hsum : Word.add32? area.offset dataOffset = some base := Word.add32?_eq_some_iff.2 hbase
  rw [locate, if_neg hroom, hsum] at h
  obtain ⟨⟨count, front⟩, rest, rfl, hnamed⟩ :=
    (Task.path_query_bind_iff (q := .readFlash base 16 (Buffer.zero 16))).1 h
  refine ⟨(count, front), ?_⟩
  simp only at hnamed
  unfold regionBy
  split at hnamed
  · rename_i hcount
    rw [if_pos hcount]
    rcases Task.path_check_bind_iff.1 hnamed with
      ⟨named?, hregion, hend⟩ | ⟨halt, hregion, rfl, rfl⟩
    · obtain ⟨rfl, rfl⟩ := Task.path_pure_iff.1 hend
      rw [hregion]
      exact ⟨rfl, rfl⟩
    · rw [hregion]
      exact ⟨rfl, rfl⟩
  · rename_i hcount
    rw [if_neg hcount]
    obtain ⟨rfl, rfl⟩ := Task.path_pure_iff.1 hnamed
    exact ⟨rfl, rfl⟩

namespace Placed

/-- What the first bytes at the place for data say as a header: the data is in the
region that they name, or in the rest of the area if they name none. -/
theorem region?_eq (hplaced : Placed flash area data) (hosts : Hosts flash area)
    (htext : data.head? = some ItemKind.text.byte)
    (hbase : area.offset.toNat + 0x600 = base.toNat)
    (hsize : size.toNat = area.len.toNat - 0x600)
    (hfront : front.bytes = (flash.drop base.toNat).take 16) :
    ∃ named?, SizeHeader.region? front base size = .ok named? ∧
      Keeps flash (named?.getD ⟨base, size⟩) data := by
  obtain ⟨hlarge, haddressable, hinside⟩ := hosts
  cases hplaced with
  | behindHeader count hcount hfits hstands =>
    obtain ⟨tail, htail⟩ := hstands
    rw [hbase] at htail
    have hheader : (SizeHeader.layout.write ⟨magic, count⟩).length = 16 :=
      SizeHeader.faithful_layout.length_write _
    have hoffset : (base + headerLen).toNat = base.toNat + 16 := by
      rw [UInt32.toNat_add]
      exact Nat.mod_eq_of_lt (show base.toNat + 16 < 2 ^ 32 by omega)
    refine ⟨some ⟨base + headerLen, count⟩, SizeHeader.region?_of_header ⟨magic, count⟩ ?_ rfl ?_
      hoffset.symm, ?_, ?_⟩
    · rw [hfront, ← htail, List.append_assoc, List.take_left' hheader]
    · show count.toNat + 16 ≤ size.toNat
      omega
    · show (base + headerLen).toNat + count.toNat ≤ flash.length
      omega
    · have hdata : (flash.drop (base + headerLen).toNat).take count.toNat = data := by
        rw [hoffset, ← List.drop_drop, ← htail, List.append_assoc, List.drop_left' hheader, hcount,
          List.take_left]
      exact hdata.symm ▸ List.prefix_rfl
  | direct hfits hstands =>
    rw [hbase] at hstands
    refine ⟨none, SizeHeader.region?_of_text ?_, ?_, ?_⟩
    · obtain ⟨tail, htail⟩ := hstands
      rw [hfront, ← htail]
      cases data with
      | nil => cases htext
      | cons b data => exact htext
    · show base.toNat + size.toNat ≤ flash.length
      omega
    · show data <+: (flash.drop base.toNat).take size.toNat
      exact List.prefix_take_iff.2 ⟨hstands, by omega⟩

/-- **Data is located where it was placed.** -/
theorem path_locate {result : Except (Stop ε) (Option Region)} (hplaced : Placed flash area data)
    (hosts : Hosts flash area) (htext : data.head? = some ItemKind.text.byte)
    (hshows : ∀ step ∈ steps, Shows flash area step)
    (h : (locate area : Task ε (Option Region)).Path steps result) :
    ∃ region, result = .ok (some region) ∧ Keeps flash region data := by
  obtain ⟨hlarge, haddressable, hinside⟩ := hosts
  have hbase : area.offset.toNat + 0x600 = (area.offset + dataOffset).toNat := by
    rw [UInt32.toNat_add]
    exact (Nat.mod_eq_of_lt (show area.offset.toNat + 0x600 < 2 ^ 32 by omega)).symm
  have hsize : (area.len - dataOffset).toNat = area.len.toNat - 0x600 :=
    UInt32.toNat_sub_of_le _ _ (UInt32.le_iff_toNat_le.2 (show 0x600 ≤ _ by omega))
  obtain ⟨⟨count, front⟩, rfl, hresult⟩ := ProductData.path_locate hlarge hbase h
  -- All sixteen bytes arrive, for they lie in the area.
  have hread : (count, front) = (UInt64.ofNat 16, _) := hshows _ List.mem_cons_self
    (show (area.offset + dataOffset).toNat + 16 ≤ flash.length by omega)
  obtain ⟨rfl, hfront⟩ := Prod.mk.inj hread
  have hbytes : front.bytes = (flash.drop (area.offset + dataOffset).toNat).take 16 := by
    rw [hfront, Buffer.bytes_overwrite_of_eq]
    rw [List.length_take, List.length_drop]
    omega
  obtain ⟨named?, hnamed, hkeeps⟩ :=
    hplaced.region?_eq ⟨hlarge, haddressable, hinside⟩ htext hbase hsize hbytes
  exact ⟨_, hresult.trans (regionBy_of_ok hnamed), hkeeps⟩

/-- **Data is found where it was placed,** with anything behind it. -/
theorem path_fromFlash {result : Except (Stop ε) (Option Bytes)} (hplaced : Placed flash area data)
    (hosts : Hosts flash area) (htext : data.head? = some ItemKind.text.byte)
    (hshows : ∀ step ∈ steps, Shows flash area step)
    (h : (fromFlash : Task ε (Option Bytes)).Path steps result) :
    ∃ blob, result = .ok (some blob) ∧ data <+: blob := by
  obtain ⟨area?, rest, rfl, hrest⟩ :=
    (Task.path_query_bind_iff (q := .findArea areaName)).1 h
  obtain rfl : area? = some area := hshows _ List.mem_cons_self rfl
  replace hshows := fun step hstep => hshows step (List.mem_cons_of_mem _ hstep)
  rcases Task.path_bind_iff.1 hrest with ⟨locating, mapping, region?, rfl, hlocate, hmap⟩ |
    ⟨stop, hlocate, -⟩
  · obtain ⟨region, hregion, hinside, hdata⟩ := hplaced.path_locate hosts htext
      (fun step hstep => hshows step (List.mem_append_left _ hstep)) hlocate
    obtain rfl := Except.ok.inj hregion
    obtain ⟨shown, rest, rfl, hend⟩ :=
      (Task.path_query_bind_iff (q := .mapFlash region.offset region.len)).1 hmap
    obtain rfl := hshows _ (List.mem_append_right _ List.mem_cons_self) hinside
    obtain ⟨-, rfl⟩ := Task.path_pure_iff.1 hend
    exact ⟨_, rfl, hdata⟩
  · obtain ⟨region, hregion, -⟩ := hplaced.path_locate hosts htext hshows hlocate
    cases hregion

end Placed

end ProductData
end BootHandoff

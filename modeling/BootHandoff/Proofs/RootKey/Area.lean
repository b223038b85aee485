/-
# The root key and the bytes outside the block's area

The key itself is taken from the block's area and from nowhere else: the region that
the header names is checked against the area.  The header is not.  It is mapped at
the start of the area with its full 128 bytes, however long the area is.

| bytes of the header | what is made of them |
| --- | --- |
| 0-3 | the signature |
| 24-31 | the place of the root key |
| the rest | nothing |

So in an area of 32 bytes or more, everything that decides where the key lies
belongs to the area, and on two media that are the same there, reading and checking
the key do the same (`key_of_area`).  In a shorter area the place of the key is
made of bytes behind the area, and a byte outside decides whether there is a key
(`key_of_short_area`).
-/

import BootHandoff.Digest.Sha256
import BootHandoff.Proofs.Bench.Showing
import BootHandoff.Proofs.RootKey.View
import Mathlib.Control.Monad.Basic

namespace BootHandoff
namespace RootKey

open Bench Flash Platform

variable {n : Nat} {area region : Region} {shown shown' : Bytes}

theorem Header.signature_read (bs : Bytes) :
    (layout.read bs).signature = Buffer.ofFront 4 bs := rfl

theorem Header.rootKey_read (bs : Bytes) :
    (layout.read bs).rootKey = ⟨Layout.u32.read (bs.drop 24), Layout.u32.read (bs.drop 28)⟩ := by
  simp [layout, Layout.iso, Layout.pair, Extent.layout, Layout.area, Layout.u16, Layout.u32]

/-- The number of bytes at the front of a header that decide where the key lies. -/
def frontLen : Nat := 32

/-- Of a header only the front decides. -/
theorem placed_congr (hlength : shown.length = shown'.length)
    (hfront : shown.take frontLen = shown'.take frontLen) :
    placed area (.ok shown) = placed area (.ok shown') := by
  have hpart : ∀ place len, place + len ≤ frontLen →
      (shown.drop place).take len = (shown'.drop place).take len := by
    intro place len hle
    have h := congrArg (fun front => (front.drop place).take len) hfront
    simp only [List.drop_take, List.take_take] at h
    rwa [Nat.min_eq_left (by omega)] at h
  have hword : ∀ place, place + 4 ≤ frontLen →
      Layout.u32.read (shown.drop place) = Layout.u32.read (shown'.drop place) := fun place hle =>
    congrArg (fun bs => UInt32.ofNat (Bytes.ofLE bs)) (hpart place 4 hle)
  have hfirst : shown.take 4 = shown'.take 4 := hpart 0 4 (by decide)
  have hsignature :
      (Header.layout.read shown).signature = (Header.layout.read shown').signature := by
    rw [Header.signature_read, Header.signature_read]
    refine Buffer.ext ?_
    rw [Buffer.ofFront, Buffer.ofFront, Buffer.bytes_overwrite, Buffer.bytes_overwrite, hlength,
      hfirst]
  have hkey : (Header.layout.read shown).rootKey = (Header.layout.read shown').rootKey := by
    rw [Header.rootKey_read, Header.rootKey_read, hword 24 (by decide), hword 28 (by decide)]
  have hplaced : placedBy area (Header.layout.read shown) =
      placedBy area (Header.layout.read shown') := by
    unfold placedBy
    rw [hsignature, hkey]
  rw [placed_ok, placed_ok, hlength, hplaced]

/-- A key that a header places lies in the area of the header. -/
theorem within_of_placed {mapped : Except FlashError Bytes} (h : placed area mapped = .ok region) :
    ∃ start, start + region.len.toNat ≤ area.len.toNat ∧
      area.offset.toNat + start = region.offset.toNat := by
  obtain ⟨shown, header, -, -, -, hregion⟩ := eq_ok_of_placed h
  obtain ⟨hinside, hoffset, hlen⟩ := Region.subrange?_eq_some_iff.1 hregion
  exact ⟨header.rootKey.offset.toNat, hlen ▸ hinside, hoffset⟩

/-- The range that a query wants mapped. -/
def mapped? : Query → Option Region
  | .mapFlash offset len => some ⟨offset, len⟩
  | _ => none

/-- A medium with a flash map and bytes: whether it opens, the area of the block, and
what it holds. -/
structure Medium where
  opening : Except FlashError Unit
  area? : Option Region
  bytes : Bytes

namespace Medium

variable {M M' : Medium} {steps : List Step}

/-- The bytes from a place on. -/
def slice (M : Medium) (offset len : Nat) : Bytes := (M.bytes.drop offset).take len

/-- What is seen of a medium whose mappings show the bytes that are asked for. -/
def view (M : Medium) : View where
  opening := M.opening
  area? := M.area?
  map offset len := .ok (M.slice offset.toNat len.toNat)

/-- The medium is large enough for the mapping that is asked for. -/
def Fits (M : Medium) (step : Step) : Prop :=
  ∀ range ∈ mapped? step.query, range.offset.toNat + range.len.toNat ≤ M.bytes.length

instance (M : Medium) : DecidablePred M.Fits := fun _ =>
  inferInstanceAs (Decidable (∀ _ ∈ _, _))

/-- In this step the medium is asked for no more than it has, and answers with what
it holds. -/
structure Shows (M : Medium) (step : Step) : Prop where
  fits : M.Fits step
  answers : M.view.Answers step

/-- The media have the same flash map, open or do not open alike, and hold the same
in the block's area. -/
structure AgreeInside (M M' : Medium) : Prop where
  opening : M.opening = M'.opening
  area : M.area? = M'.area?
  inside : ∀ area, M.area? = some area →
    M.slice area.offset.toNat area.len.toNat = M'.slice area.offset.toNat area.len.toNat

/-- The front of the block's area can be mapped as a header, if the medium opens. -/
def HasHeader (M : Medium) : Prop :=
  M.opening = .ok () → ∀ area, M.area? = some area →
    area.offset.toNat + headerLen.toNat ≤ M.bytes.length

theorem length_slice {offset len : Nat} (h : offset + len ≤ M.bytes.length) :
    (M.slice offset len).length = len := by
  rw [slice, List.length_take, List.length_drop]
  omega

theorem take_slice (offset : Nat) {len size : Nat} (h : len ≤ size) :
    (M.slice offset size).take len = M.slice offset len := by
  rw [slice, List.take_take, Nat.min_eq_left h, slice]

/-- A slice of a slice. -/
theorem slice_slice {start len : Nat} (offset : Nat) {size : Nat} (h : start + len ≤ size) :
    ((M.slice offset size).drop start).take len = M.slice (offset + start) len := by
  unfold slice
  rw [List.drop_take, List.take_take, List.drop_drop, Nat.min_eq_left (by omega)]

theorem hasHeader_of_headerAsked (hasked : M.view.HeaderAsked steps)
    (hshows : ∀ step ∈ steps, M.Shows step) : M.HasHeader := fun hopening area harea => by
  obtain ⟨mapped, hmem⟩ := hasked hopening area harea
  exact (hshows _ hmem).fits _ rfl

/-- **A key that was found lies in the area.** -/
theorem within_of_region (hregion : M.view.region = .ok region) :
    ∃ area start, M.area? = some area ∧ start + region.len.toNat ≤ area.len.toNat ∧
      area.offset.toNat + start = region.offset.toNat := by
  cases hopening : M.opening with
  | error e =>
    rw [View.region_of_opening_error hopening] at hregion
    cases hregion
  | ok =>
    rw [View.region_of_opening_ok hopening] at hregion
    cases harea : M.area? with
    | none =>
      rw [View.locate_of_none harea] at hregion
      cases hregion
    | some area =>
      rw [View.locate_of_some harea] at hregion
      obtain ⟨start, hinside, hoffset⟩ := within_of_placed hregion
      exact ⟨area, start, rfl, hinside, hoffset⟩

namespace AgreeInside

/-- What lies in the area is the same. -/
theorem slice_eq (h : M.AgreeInside M') (harea : M.area? = some area) {start len : Nat}
    (hinside : start + len ≤ area.len.toNat) :
    M.slice (area.offset.toNat + start) len = M'.slice (area.offset.toNat + start) len := by
  rw [← slice_slice _ hinside, ← slice_slice _ hinside, h.inside area harea]

/-- **In an area that is long enough the key lies at the same place.** -/
theorem region_eq (h : M.AgreeInside M') (hheader : M.HasHeader) (hheader' : M'.HasHeader)
    (hlong : ∀ area, M.area? = some area → frontLen ≤ area.len.toNat) :
    M.view.region = M'.view.region := by
  cases hopening : M.opening with
  | error e =>
    rw [View.region_of_opening_error hopening,
      View.region_of_opening_error (h.opening.symm.trans hopening)]
  | ok =>
    have hopening' : M'.opening = .ok () := h.opening.symm.trans hopening
    rw [View.region_of_opening_ok hopening, View.region_of_opening_ok hopening']
    cases harea : M.area? with
    | none =>
      rw [View.locate_of_none harea, View.locate_of_none (h.area.symm.trans harea)]
    | some area =>
      have harea' : M'.area? = some area := h.area.symm.trans harea
      have hlength := length_slice (hheader hopening area harea)
      have hlength' := length_slice (hheader' hopening' area harea')
      have hshort : frontLen ≤ headerLen.toNat := by decide
      rw [View.locate_of_some harea, View.locate_of_some harea']
      refine placed_congr (hlength.trans hlength'.symm) ?_
      rw [take_slice _ hshort, take_slice _ hshort, ← take_slice _ (hlong area harea),
        ← take_slice _ (hlong area harea), h.inside area harea]

/-- A key that was found is the same. -/
theorem map_eq (h : M.AgreeInside M') (hregion : M.view.region = .ok region) :
    M.view.map region.offset region.len = M'.view.map region.offset region.len := by
  obtain ⟨area, start, harea, hinside, hoffset⟩ := within_of_region hregion
  show Except.ok (M.slice region.offset.toNat _) = .ok (M'.slice region.offset.toNat _)
  rw [← hoffset, h.slice_eq harea hinside]

end AgreeInside

/-- A medium that is all that a run sees of its flash. -/
def Serves {σ α : Type} (M : Medium) (m : Machine σ) (u : σ) (x : Firmware α) : Prop :=
  ∀ step ∈ (x.run m u).steps, M.Shows step

variable {σ : Type} {m : Machine σ} {u : σ}

theorem Serves.value_read {buf : Buffer n} (h : M.Serves m u (read.on buf)) :
    ((read.on buf).run m u).value = M.view.read buf ∧ M.HasHeader := by
  obtain ⟨hvalue, hasked⟩ := View.path_read (fun step hstep => (h step hstep).answers)
    (Action.path_run m read buf u)
  exact ⟨hvalue, hasHeader_of_headerAsked hasked h⟩

theorem Serves.value_verifyWith {hash : Bytes → Buffer 32} {expected : Buffer 32}
    (h : M.Serves m u (verifyWith hash expected).run) :
    ((verifyWith hash expected).run.run m u).value =
      (M.view.verify hash expected).mapError .error :=
  View.path_verifyWith (fun step hstep => (h step hstep).answers)
    (Firmware.path_run m (verifyWith hash expected).run u)

/-- **A key that is read is a part of the area.** -/
theorem within_of_read {buf t : Buffer n} {size : Nat} (h : M.view.read buf = (.ok size, t)) :
    ∃ area start, M.area? = some area ∧ start + size ≤ area.len.toNat ∧
      t = buf.overwrite (M.slice (area.offset.toNat + start) size) := by
  unfold View.read at h
  split at h
  · cases h
  rename_i region hregion
  split at h
  · obtain ⟨area, start, harea, hinside, hoffset⟩ := within_of_region hregion
    rcases copied_cases buf (M.view.map region.offset region.len) with
      ⟨key, hkey, -, hend⟩ | ⟨stop, hend⟩
    · obtain ⟨hsize, rfl⟩ := Prod.mk.inj (h.symm.trans hend)
      obtain rfl := Except.ok.inj hsize
      obtain rfl : M.slice region.offset.toNat region.len.toNat = key := Except.ok.inj hkey
      have hle : (M.slice region.offset.toNat region.len.toNat).length ≤ region.len.toNat :=
        List.length_take_le _ _
      refine ⟨area, start, harea, by omega, ?_⟩
      rw [hoffset, ← take_slice _ hle, List.take_length]
    · cases h.symm.trans hend
  · cases h

end Medium

/-- **The root key is made of the area and of nothing else.**  A key that is read is a
part of the block's area.  If the area has room for the front of a header, then on two
media that have the same flash map, open alike and hold the same in the area, reading
leaves the same and checking with any hash says the same, whatever else is on them. -/
theorem key_of_area {σ σ' : Type} {m : Machine σ} {m' : Machine σ'} {u : σ} {u' : σ'}
    {M M' : Medium} (hagree : M.AgreeInside M') (buf : Buffer n) (hash : Bytes → Buffer 32)
    (expected : Buffer 32)
    (hread : M.Serves m u (read.on buf)) (hread' : M'.Serves m' u' (read.on buf))
    (hverify : M.Serves m u (verifyWith hash expected).run)
    (hverify' : M'.Serves m' u' (verifyWith hash expected).run) :
    (∀ size, ((read.on buf).run m u).value.1 = .ok size →
      ∃ area start, M.area? = some area ∧ start + size ≤ area.len.toNat ∧
        ((read.on buf).run m u).value.2 =
          buf.overwrite (M.slice (area.offset.toNat + start) size)) ∧
    ((∀ area, M.area? = some area → frontLen ≤ area.len.toNat) →
      ((read.on buf).run m u).value = ((read.on buf).run m' u').value ∧
        ((verifyWith hash expected).run.run m u).value =
          ((verifyWith hash expected).run.run m' u').value) := by
  obtain ⟨hvalue, hheader⟩ := hread.value_read
  obtain ⟨hvalue', hheader'⟩ := hread'.value_read
  constructor
  · intro size hsize
    rw [hvalue] at hsize ⊢
    exact Medium.within_of_read (Prod.ext hsize rfl)
  · intro hlong
    obtain ⟨hsame, hsame'⟩ := View.congr (hagree.region_eq hheader hheader' hlong)
      (fun region hregion => hagree.map_eq hregion) buf hash expected
    rw [hvalue, hvalue', hverify.value_verifyWith, hverify'.value_verifyWith]
    exact ⟨hsame, congrArg _ hsame'⟩

/-- The medium that a chip is. -/
def Medium.ofChip (f : FlashChip) : Medium where
  opening := if f.failOpen then .error .unopened else .ok ()
  area? := f.findArea areaName
  bytes := f.contents

theorem open_fst (f : FlashChip) : f.open.1 = (Medium.ofChip f).opening := by
  unfold FlashChip.open Medium.ofChip
  split <;> rfl

theorem respond_medium (q : Query) (r : Rig) :
    Medium.ofChip (Rig.respond q r).2.flash = Medium.ofChip r.flash := by
  cases q with
  | openFlash =>
    show Medium.ofChip r.flash.open.2 = _
    unfold FlashChip.open
    split <;> rfl
  | _ => rfl

/-- A chip that shows what it is asked for serves as its medium. -/
theorem Medium.serves_ofChip {α : Type} {x : Firmware α} {r : Rig}
    (hlimit : r.flash.mapLimit = none)
    (hfits : ∀ step ∈ (x.run Rig.machine r).steps, (ofChip r.flash).Fits step) :
    (ofChip r.flash).Serves Rig.machine r x := by
  intro step hstep
  refine ⟨hfits step hstep, ?_⟩
  obtain ⟨t, ⟨hmedium, hmap⟩, hanswer⟩ := Firmware.answered_of_invariant
    (I := fun t => ofChip t.flash = ofChip r.flash ∧ t.flash.mapLimit = none)
    (fun q t ht => ⟨(respond_medium q t).trans ht.1, (Rig.respond_mapLimit q t).trans ht.2⟩)
    ⟨rfl, hlimit⟩ hstep
  have hfit := hmedium ▸ hfits step hstep
  rw [← hmedium]
  obtain ⟨q, answer⟩ := step
  cases q with
  | openFlash => exact hanswer.trans (open_fst t.flash)
  | findArea name =>
    rintro rfl
    exact hanswer
  | mapFlash offset len => exact hanswer.trans (FlashChip.map_eq hmap (hfit _ rfl))
  | _ => trivial

/-- The standard bench with a small flash and an area for the block, as long as the
number says.  A key of sixteen bytes is named at the front of it, and behind the area
stands another byte. -/
def Rig.withBlock (len : UInt32) (behind : UInt8) : Rig :=
  let front := signature.bytes ++ List.replicate 24 0 ++ [0x10, 0, 0, 0]
  let bank := ((Bank.blank 0x100 0).write 0x10 front).write (0x10 + len.toNat) [behind]
  { Rig.standard with flash := (FlashChip.ofBank bank).addArea areaName ⟨0x10, len⟩ }

/-- The hypotheses are satisfiable: with an area of 32 bytes, a byte behind it makes no
difference. -/
theorem key_of_area_on_bench :
    let r := Rig.withBlock 32 0
    let r' := Rig.withBlock 32 1
    let buf : Buffer 20 := Buffer.fill 20 0xaa
    let expected : Buffer 32 := Buffer.fill 32 0xaa
    r.flash.contents ≠ r'.flash.contents ∧
      ((read.on buf).run Rig.machine r).value.1 = .ok 16 ∧
      ((read.on buf).run Rig.machine r).value = ((read.on buf).run Rig.machine r').value ∧
      ((verifyWith Digest.sha256 expected).run.run Rig.machine r).value =
        ((verifyWith Digest.sha256 expected).run.run Rig.machine r').value := by
  intro r r' buf expected
  have hagree : (Medium.ofChip r.flash).AgreeInside (Medium.ofChip r'.flash) := by
    refine ⟨rfl, rfl, ?_⟩
    rintro _ ⟨⟩
    decide +kernel
  have hread := Medium.serves_ofChip (x := read.on buf) (r := r) rfl (by decide +kernel)
  have hread' := Medium.serves_ofChip (x := read.on buf) (r := r') rfl (by decide +kernel)
  have hverify := Medium.serves_ofChip (x := (verifyWith Digest.sha256 expected).run) (r := r)
    rfl (by decide +kernel)
  have hverify' := Medium.serves_ofChip (x := (verifyWith Digest.sha256 expected).run) (r := r')
    rfl (by decide +kernel)
  obtain ⟨-, hsame⟩ := key_of_area hagree buf Digest.sha256 expected hread hread' hverify hverify'
  have hlong : ∀ area, (Medium.ofChip r.flash).area? = some area → frontLen ≤ area.len.toNat := by
    rintro _ ⟨⟩
    decide
  exact ⟨by decide +kernel, by decide +kernel, hsame hlong⟩

/-- **In a shorter area a byte outside decides.**  Two media are the same in an area of
31 bytes and differ in the byte behind it.  That byte is the last one of the size of
the key, so one medium has a key and the other has none. -/
theorem key_of_short_area :
    let r := Rig.withBlock 31 0
    let r' := Rig.withBlock 31 1
    let buf : Buffer 20 := Buffer.fill 20 0xaa
    let expected : Buffer 32 := Buffer.fill 32 0xaa
    (Medium.ofChip r.flash).AgreeInside (Medium.ofChip r'.flash) ∧
      (Medium.ofChip r.flash).Serves Rig.machine r (read.on buf) ∧
      (Medium.ofChip r'.flash).Serves Rig.machine r' (read.on buf) ∧
      ((read.on buf).run Rig.machine r).value.1 = .ok 16 ∧
      ((read.on buf).run Rig.machine r').value.1 = .error (.error (.outOfBounds 0 0x1000010)) ∧
      ((verifyWith Digest.sha256 expected).run.run Rig.machine r).value =
        .error (.error .hashMismatch) ∧
      ((verifyWith Digest.sha256 expected).run.run Rig.machine r').value =
        .error (.error (.outOfBounds 0 0x1000010)) := by
  intro r r' buf expected
  have hagree : (Medium.ofChip r.flash).AgreeInside (Medium.ofChip r'.flash) := by
    refine ⟨rfl, rfl, ?_⟩
    rintro _ ⟨⟩
    decide +kernel
  exact ⟨hagree, Medium.serves_ofChip rfl (by decide +kernel),
    Medium.serves_ofChip rfl (by decide +kernel), by decide +kernel, by decide +kernel,
    by decide +kernel, by decide +kernel⟩

end RootKey
end BootHandoff

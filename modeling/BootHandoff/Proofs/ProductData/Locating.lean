/-
# Product data stays inside its area

Where the product data lies is worked out from three words that nobody vouches for: the offset
and the length of the area in the flash map, and the size in a header that may stand in front
of the data.  `Located` says how that can end, with what was read on the way, and `Fetched`
says it of fetching the data.

| the area | sixteen bytes at byte `600` | the data |
| --- | --- | --- |
| has at most `610` bytes | are not read | there is none |
| has more | announce a size that fits | has that size, from byte `610` on |
| has more | announce no such size | is the area from byte `600` on |

In the last two rows the place may be behind the 32-bit words, and then the arithmetic
overflows.  Otherwise, whatever the header claims, the data is a part of the area
(`Located.inside`), and a blob that is fetched has no byte from outside it
(`blob_within_area`).
-/

import BootHandoff.Proofs.Bench.Showing
import BootHandoff.Proofs.Platform.Replay
import Mathlib.Control.Monad.Basic

namespace BootHandoff
namespace ProductData

open Bench Flash Platform

variable {ε σ : Type} {m : Machine σ} {u : σ} {area region : Region} {base size : UInt32}
  {answer : UInt64 × Buffer 16} {steps : List Step} {stop : Stop ε}

/-- All of the sixteen bytes were read, and they are a header for so many bytes as the area
still has room for. -/
structure Announces (area : Region) (answer : UInt64 × Buffer 16) (size : UInt32) : Prop where
  arrived : answer.1 = 16
  magic_eq : answer.2.bytes.take 12 = magic.bytes
  size_eq : size.toNat = Bytes.ofLE (answer.2.bytes.drop 12)
  fits : size.toNat + 16 ≤ area.len.toNat - 0x600

/-- A header announces one size. -/
theorem Announces.unique {size' : UInt32} (h : Announces area answer size)
    (h' : Announces area answer size') : size = size' :=
  UInt32.toNat_inj.1 (h.size_eq.trans h'.size_eq.symm)

theorem toNat_headerLen : headerLen.toNat = 16 := rfl

namespace SizeHeader

/-- Sixteen bytes are the header that is read off them. -/
theorem bytes_eq (front : Buffer 16) :
    front.bytes = (layout.read front.bytes).magic.bytes ++
      Bytes.toLE 4 (layout.read front.bytes).size.toNat := by
  have hall : front.bytes.take layout.size = front.bytes :=
    List.take_of_length_le (Nat.le_of_eq front.length_bytes)
  exact (hall.symm.trans
    (faithful_layout.write_read front.bytes (Nat.le_of_eq front.length_bytes.symm)).symm)

theorem magic_read_iff (front : Buffer 16) :
    (layout.read front.bytes).magic = ProductData.magic ↔
      front.bytes.take 12 = ProductData.magic.bytes := by
  have htake : front.bytes.take 12 = (layout.read front.bytes).magic.bytes :=
    (congrArg (List.take 12) (bytes_eq front)).trans (List.take_left' (Buffer.length_bytes _))
  rw [htake, Buffer.ext_iff]

theorem toNat_size_read (front : Buffer 16) :
    (layout.read front.bytes).size.toNat = Bytes.ofLE (front.bytes.drop 12) := by
  have hdrop : front.bytes.drop 12 = Bytes.toLE 4 (layout.read front.bytes).size.toNat :=
    (congrArg (List.drop 12) (bytes_eq front)).trans (List.drop_left' (Buffer.length_bytes _))
  rw [hdrop, Bytes.ofLE_toLE]
  exact (Nat.mod_eq_of_lt (UInt32.toNat_lt _)).symm

/-- **The bytes name a region if they announce a size,** and otherwise none. -/
theorem region?_cases (hsize : size.toNat = area.len.toNat - 0x600) (front : Buffer 16)
    (base : UInt32) :
    (∃ announced, Announces area (16, front) announced ∧ region? front base size =
      (orOverflow (Word.add32? base headerLen)).map fun offset => some ⟨offset, announced⟩) ∨
    (∀ announced, ¬Announces area (16, front) announced) ∧ region? front base size = .ok none := by
  rw [region?_eq, hsize]
  split
  · rename_i h
    obtain ⟨hmagic, hfits⟩ := h
    exact .inl ⟨_, ⟨rfl, (magic_read_iff front).1 hmagic, toNat_size_read front, hfits⟩, rfl⟩
  · rename_i h
    refine .inr ⟨fun announced hannounces => h ⟨?_, ?_⟩, rfl⟩
    · exact (magic_read_iff front).2 hannounces.magic_eq
    · rw [toNat_size_read, ← hannounces.size_eq]
      exact hannounces.fits

end SizeHeader

/-- The step that reads what may be a header. -/
def frontRead (base : UInt32) (answer : UInt64 × Buffer 16) : Step :=
  ⟨.readFlash base 16 (Buffer.zero 16), answer⟩

/-- **How looking for data in an area can end.** -/
inductive Located (area : Region) : List Step → Except (Stop ε) (Option Region) → Prop where
  /-- There is no room for data behind a header. -/
  | small (hsmall : area.len.toNat ≤ 0x610) : Located area [] (.ok none)
  /-- The place for data cannot be addressed. -/
  | beyond (hlarge : 0x610 < area.len.toNat) (hbeyond : 2 ^ 32 ≤ area.offset.toNat + 0x600) :
    Located area [] (.error (.halt .overflow))
  /-- A header announces the data behind it. -/
  | announced {base offset size : UInt32} {answer : UInt64 × Buffer 16}
    (hlarge : 0x610 < area.len.toNat)
    (hbase : base.toNat = area.offset.toNat + 0x600) (hannounces : Announces area answer size)
    (hoffset : offset.toNat = area.offset.toNat + 0x610) :
    Located area [frontRead base answer] (.ok (some ⟨offset, size⟩))
  /-- A header announces data behind it, and that cannot be addressed. -/
  | announcedBeyond {base size : UInt32} {answer : UInt64 × Buffer 16}
    (hlarge : 0x610 < area.len.toNat)
    (hbase : base.toNat = area.offset.toNat + 0x600) (hannounces : Announces area answer size)
    (hbeyond : 2 ^ 32 ≤ area.offset.toNat + 0x610) :
    Located area [frontRead base answer] (.error (.halt .overflow))
  /-- No header announces anything, and the rest of the area is the data. -/
  | rest {base len : UInt32} {answer : UInt64 × Buffer 16} (hlarge : 0x610 < area.len.toNat)
    (hbase : base.toNat = area.offset.toNat + 0x600)
    (hnone : ∀ size, ¬Announces area answer size) (hlen : len.toNat = area.len.toNat - 0x600) :
    Located area [frontRead base answer] (.ok (some ⟨base, len⟩))

/-- What is made of the sixteen bytes. -/
theorem located_of_front (hlarge : 0x610 < area.len.toNat)
    (hbase : base.toNat = area.offset.toNat + 0x600) (hsize : size.toNat = area.len.toNat - 0x600)
    (answer : UInt64 × Buffer 16) :
    Located area [frontRead base answer] (regionBy base size answer : Except (Stop ε) _) := by
  obtain ⟨count, front⟩ := answer
  unfold regionBy
  split
  · rename_i hcount
    obtain rfl : count = 16 := hcount
    rcases SizeHeader.region?_cases hsize front base with
      ⟨announced, hannounces, hregion⟩ | ⟨hnone, hregion⟩ <;> rw [hregion]
    · -- The header is believed; its data has an address, or there is the halt.
      cases hstart : Word.add32? base headerLen with
      | some offset =>
        refine .announced hlarge hbase hannounces ?_
        rw [← Word.add32?_eq_some_iff.1 hstart, hbase, toNat_headerLen]
      | none =>
        have hbeyond := Word.add32?_eq_none_iff.1 hstart
        rw [hbase, toNat_headerLen] at hbeyond
        exact .announcedBeyond hlarge hbase hannounces hbeyond
    · exact .rest hlarge hbase hnone hsize
  · rename_i hcount
    exact .rest hlarge hbase (fun announced hannounces => hcount hannounces.arrived) hsize

theorem located_of_path {result : Except (Stop ε) (Option Region)}
    (h : (locate area : Task ε (Option Region)).Path steps result) : Located area steps result := by
  rcases Nat.lt_or_ge 0x610 area.len.toNat with hlarge | hsmall
  · cases hsum : Word.add32? area.offset dataOffset with
    | some base =>
      have hbase := Word.add32?_eq_some_iff.1 hsum
      have hsize : (area.len - dataOffset).toNat = area.len.toNat - 0x600 :=
        UInt32.toNat_sub_of_le _ _ (UInt32.le_iff_toNat_le.2 (show 0x600 ≤ _ by omega))
      obtain ⟨answer, rfl, rfl⟩ := path_locate hlarge hbase h
      exact located_of_front hlarge hbase.symm hsize answer
    | none =>
      have hroom : ¬area.len ≤ dataOffset + headerLen := fun hle =>
        Nat.not_le.2 hlarge (UInt32.le_iff_toNat_le.1 hle)
      rw [locate, if_neg hroom, hsum] at h
      rcases Task.path_check_bind_iff.1 h with ⟨-, ⟨⟩, -⟩ | ⟨halt, hhalt, rfl, rfl⟩
      obtain rfl := Except.error.inj hhalt
      exact .beyond hlarge (Word.add32?_eq_none_iff.1 hsum)
  · have hroom : area.len ≤ dataOffset + headerLen := UInt32.le_iff_toNat_le.2 hsmall
    rw [locate, if_pos hroom] at h
    obtain ⟨rfl, rfl⟩ := Task.path_pure_iff.1 h
    exact .small hsmall

/-- The region is a part of the area, from byte `600` of it on, over the unbounded numbers. -/
def Inside (area region : Region) : Prop :=
  area.offset.toNat + 0x600 ≤ region.offset.toNat ∧
    region.offset.toNat + region.len.toNat ≤ area.offset.toNat + area.len.toNat

namespace Located

variable {result : Except (Stop ε) (Option Region)}

/-- Looking for data asks for the sixteen bytes at most. -/
theorem frontRead_of_mem (h : Located area steps result) {step : Step} (hstep : step ∈ steps) :
    ∃ base answer, step = frontRead base answer := by
  cases h with
  | small hsmall | beyond hlarge hbeyond => exact absurd hstep List.not_mem_nil
  | announced | announcedBeyond | rest => exact ⟨_, _, List.mem_singleton.1 hstep⟩

/-- **The data is a part of the area,** whatever a header claims. -/
theorem inside (h : Located area steps (.ok (some region) : Except (Stop ε) _)) :
    Inside area region := by
  cases h with
  | @announced base offset size answer hlarge hbase hannounces hoffset =>
    have hfits := hannounces.fits
    exact ⟨show _ ≤ offset.toNat by omega, show offset.toNat + size.toNat ≤ _ by omega⟩
  | @rest base len answer hlarge hbase hnone hlen =>
    exact ⟨Nat.le_of_eq hbase.symm, show base.toNat + len.toNat ≤ _ by omega⟩

end Located

/-- What comes of the data that was looked for. -/
inductive Shown : Except (Stop ε) (Option Region) → List Step → Except (Stop ε) (Option Bytes) →
    Prop where
  /-- Looking for it has halted. -/
  | halted {stop : Stop ε} : Shown (.error stop) [] (.error stop)
  /-- There is none. -/
  | nowhere : Shown (.ok none) [] (.ok none)
  /-- The flash is asked to show it, and if it does not, that is reported. -/
  | mapped {region : Region} {report : List Step} (shown : Except FlashError Bytes)
    (hreport : ∀ step ∈ report, ∃ text, step = logged .warn text) :
    Shown (.ok (some region)) (⟨.mapFlash region.offset region.len, shown⟩ :: report)
      (.ok shown.toOption)

/-- **How fetching the data can end.** -/
inductive Fetched : List Step → Except (Stop ε) (Option Bytes) → Prop where
  /-- The flash map has no area for it. -/
  | noArea (text : String) : Fetched [⟨.findArea areaName, none⟩, logged .warn text] (.ok none)
  /-- It is looked for in its area. -/
  | inArea {area : Region} {locating rest : List Step} {found : Except (Stop ε) (Option Region)}
    {result : Except (Stop ε) (Option Bytes)} (hlocated : Located area locating found)
    (hshown : Shown found rest result) :
    Fetched (⟨.findArea areaName, some area⟩ :: (locating ++ rest)) result

theorem fetched_of_path {result : Except (Stop ε) (Option Bytes)}
    (h : (fromFlash : Task ε (Option Bytes)).Path steps result) : Fetched steps result := by
  obtain ⟨_ | area, rest, rfl, hrest⟩ :=
    (Task.path_query_bind_iff (q := .findArea areaName)).1 h
  · obtain ⟨⟨⟩, last, rfl, hend⟩ := (Task.path_query_bind_iff (q := .log _ _)).1 hrest
    obtain ⟨rfl, rfl⟩ := Task.path_pure_iff.1 hend
    exact .noArea _
  rcases Task.path_bind_iff.1 hrest with
    ⟨locating, mapping, _ | region, rfl, hlocate, hmap⟩ | ⟨stop, hlocate, rfl⟩
  · obtain ⟨rfl, rfl⟩ := Task.path_pure_iff.1 hmap
    exact .inArea (located_of_path hlocate) .nowhere
  · refine .inArea (located_of_path hlocate) ?_
    obtain ⟨e | blob, last, rfl, hshown⟩ :=
      (Task.path_query_bind_iff (q := .mapFlash region.offset region.len)).1 hmap
    · obtain ⟨⟨⟩, last, rfl, hend⟩ := (Task.path_query_bind_iff (q := .log _ _)).1 hshown
      obtain ⟨rfl, rfl⟩ := Task.path_pure_iff.1 hend
      exact .mapped (.error e) (List.forall_mem_singleton.2 ⟨_, rfl⟩)
    · obtain ⟨rfl, rfl⟩ := Task.path_pure_iff.1 hshown
      exact .mapped (.ok blob) (List.forall_mem_nil _)
  · rw [← List.append_nil rest]
    exact .inArea (located_of_path hlocate) .halted

section Mapping

variable {offset len : UInt32} {shown : Except FlashError Bytes} {blob : Bytes}

/-- Nothing is mapped but the data that was located. -/
theorem Shown.eq_of_mem {found : Except (Stop ε) (Option Region)}
    {result : Except (Stop ε) (Option Bytes)} (h : Shown found steps result)
    (hstep : ⟨.mapFlash offset len, shown⟩ ∈ steps) : found = .ok (some ⟨offset, len⟩) := by
  cases h with
  | halted | nowhere => cases hstep
  | mapped answer hreport =>
    rcases List.mem_cons.1 hstep with hmapped | hmem
    · cases hmapped
      rfl
    · obtain ⟨text, ⟨⟩⟩ := hreport _ hmem

/-- A blob is what the flash has shown. -/
theorem Shown.mem_of_some {found : Except (Stop ε) (Option Region)}
    {result : Except (Stop ε) (Option Bytes)} (h : Shown found steps result)
    (hblob : result = .ok (some blob)) :
    ∃ offset len, ⟨.mapFlash offset len, .ok blob⟩ ∈ steps := by
  cases h with
  | halted | nowhere => cases hblob
  | mapped shown hreport =>
    cases shown with
    | error e => cases hblob
    | ok bytes =>
      cases hblob
      exact ⟨_, _, List.mem_cons_self⟩

/-- **What is mapped is a part of the area that was found.** -/
theorem Fetched.inside_of_mem {result : Except (Stop ε) (Option Bytes)} (h : Fetched steps result)
    (hanswers : m.Answers u steps) (hstep : ⟨.mapFlash offset len, shown⟩ ∈ steps) :
    ∃ area, (m.respond (.findArea areaName) u).1 = some area ∧ Inside area ⟨offset, len⟩ := by
  cases h with
  | noArea text => simp [logged] at hstep
  | @inArea area locating rest found result hlocated hshown =>
    refine ⟨area, hanswers.1.symm, ?_⟩
    rcases List.mem_cons.1 hstep with ⟨⟨⟩⟩ | hmem
    rcases List.mem_append.1 hmem with hmem | hmem
    · obtain ⟨base, answer, ⟨⟩⟩ := hlocated.frontRead_of_mem hmem
    · obtain rfl := hshown.eq_of_mem hmem
      exact hlocated.inside

theorem Fetched.mem_of_some (h : Fetched steps (.ok (some blob) : Except (Stop ε) _)) :
    ∃ offset len, ⟨.mapFlash offset len, .ok blob⟩ ∈ steps := by
  cases h with
  | inArea hlocated hshown =>
    obtain ⟨offset, len, hmem⟩ := hshown.mem_of_some rfl
    exact ⟨offset, len, List.mem_cons_of_mem _ (List.mem_append_right _ hmem)⟩

end Mapping

/-- On this platform sixteen bytes can be read at byte `600` of the area, and they announce a
size that fits. -/
def Announced (m : Machine σ) (u : σ) (area : Region) (size : UInt32) : Prop :=
  ∃ base, base.toNat = area.offset.toNat + 0x600 ∧
    Announces area (m.respond (.readFlash base 16 (Buffer.zero 16)) u).1 size

theorem announced_iff (hbase : base.toNat = area.offset.toNat + 0x600)
    (hanswers : m.Answers u [frontRead base answer]) :
    Announced m u area size ↔ Announces area answer size := by
  obtain ⟨hanswer, -⟩ := hanswers
  obtain rfl : answer = (m.respond (.readFlash base 16 (Buffer.zero 16)) u).1 := hanswer
  constructor
  · rintro ⟨base', hbase', hannounces⟩
    rwa [UInt32.toNat_inj.1 (hbase'.trans hbase.symm)] at hannounces
  · exact fun hannounces => ⟨base, hbase, hannounces⟩

namespace Located

variable {found : Option Region}

theorem eq_none_iff (h : Located area steps (.ok found : Except (Stop ε) _)) :
    found = none ↔ area.len.toNat ≤ 0x610 := by
  cases h with
  | small hsmall => exact iff_of_true rfl hsmall
  | announced hlarge | rest hlarge => exact iff_of_false nofun (Nat.not_le.2 hlarge)

/-- **Data lies behind a header exactly when that announces it,** and is the rest of the area
otherwise. -/
theorem region_iff (h : Located area steps (.ok (some region) : Except (Stop ε) _))
    (hanswers : m.Answers u steps) :
    (∀ size, region.offset.toNat = area.offset.toNat + 0x610 ∧ region.len = size ↔
      Announced m u area size) ∧
    ((∀ size, ¬Announced m u area size) →
      region.offset.toNat = area.offset.toNat + 0x600 ∧
        region.len.toNat = area.len.toNat - 0x600) := by
  cases h with
  | @announced base offset size answer hlarge hbase hannounces hoffset =>
    have hiff : ∀ size, Announced m u area size ↔ Announces area answer size :=
      fun _ => announced_iff hbase hanswers
    refine ⟨fun size' => ?_, fun hnone => absurd ((hiff size).2 hannounces) (hnone size)⟩
    rw [hiff]
    refine ⟨?_, fun h => ⟨hoffset, hannounces.unique h⟩⟩
    rintro ⟨-, rfl⟩
    exact hannounces
  | @rest base len answer hlarge hbase hnone hlen =>
    refine ⟨fun size => ?_, fun _ => ⟨hbase, hlen⟩⟩
    rw [announced_iff hbase hanswers]
    -- The data starts at byte `600`, so it does not start at byte `610`.
    refine iff_of_false (fun h => ?_) (hnone size)
    have hoffset : base.toNat = area.offset.toNat + 0x610 := h.1
    omega

end Located

/-- **Product data is a part of its area.**  Where looking for it ends with a value, there is no
data exactly in an area of at most `610` bytes.  In every other one it lies inside the area, over
the unbounded numbers: behind a header exactly when that was read in full and announces a size
that fits, and otherwise from byte `600` to the end.  So fetching it maps nothing from outside
the area that the flash map has, and no byte of a blob is from there. -/
theorem blob_within_area (m : Machine σ) (u : σ) (area : Region) :
    let located := ((locate area : Task ε (Option Region)).run.run m u).value
    let fetched := (fromFlash : Task ε (Option Bytes)).run.run m u
    (∀ found, located = .ok found → (found = none ↔ area.len.toNat ≤ 0x610)) ∧
    (∀ region, located = .ok (some region) →
      Inside area region ∧
      (∀ size, region.offset.toNat = area.offset.toNat + 0x610 ∧ region.len = size ↔
        Announced m u area size) ∧
      ((∀ size, ¬Announced m u area size) →
        region.offset.toNat = area.offset.toNat + 0x600 ∧
          region.len.toNat = area.len.toNat - 0x600)) ∧
    (∀ offset len shown, ⟨.mapFlash offset len, shown⟩ ∈ fetched.steps →
      ∃ area, (m.respond (.findArea areaName) u).1 = some area ∧ Inside area ⟨offset, len⟩) ∧
    ∀ media, (∀ step ∈ fetched.steps, step.Displays media) →
      ∀ blob, fetched.value = .ok (some blob) →
        ∃ area start, (m.respond (.findArea areaName) u).1 = some area ∧ 0x600 ≤ start ∧
          start + blob.length ≤ area.len.toNat ∧
          ∀ i (h : i < blob.length), blob[i] = media (area.offset.toNat + start + i) := by
  intro located fetched
  have hlocated : Located area _ located := located_of_path (Firmware.path_run m _ u)
  have hfetched : Fetched fetched.steps fetched.value := fetched_of_path (Firmware.path_run m _ u)
  have hinside : ∀ offset len shown, ⟨.mapFlash offset len, shown⟩ ∈ fetched.steps →
      ∃ area, (m.respond (.findArea areaName) u).1 = some area ∧ Inside area ⟨offset, len⟩ :=
    fun offset len shown => hfetched.inside_of_mem (Firmware.answers_run m _ u)
  refine ⟨fun found hfound => ?_, fun region hregion => ?_, hinside,
    fun media hdisplays blob hblob => ?_⟩
  · rw [hfound] at hlocated
    exact hlocated.eq_none_iff
  · rw [hregion] at hlocated
    exact ⟨hlocated.inside, hlocated.region_iff (Firmware.answers_run m _ u)⟩
  · -- The blob was shown in some step, and what that asked for lies inside.
    rw [hblob] at hfetched
    obtain ⟨offset, len, hstep⟩ := hfetched.mem_of_some
    obtain ⟨hlength, hbytes⟩ := hdisplays _ hstep
    obtain ⟨area, harea, hpart⟩ := hinside offset len _ hstep
    obtain ⟨hstart, hstop⟩ : area.offset.toNat + 0x600 ≤ offset.toNat ∧
      offset.toNat + len.toNat ≤ area.offset.toNat + area.len.toNat := hpart
    refine ⟨area, offset.toNat - area.offset.toNat, harea, by omega, by omega, fun i hi => ?_⟩
    rw [hbytes i hi, Nat.add_sub_cancel' (Nat.le_of_add_right_le hstart)]

/-- The hypotheses are satisfiable: on the bench a header announces four bytes, which are
fetched from behind it. -/
theorem blob_within_area_on_bench :
    let r := Rig.withProductData (magic.bytes ++ [4, 0, 0, 0, 1, 0, 0, 9])
    let area : Region := ⟨0x1000, 0x1000⟩
    let located := ((locate area : Task Unit (Option Region)).run.run Rig.machine r).value
    let fetched := (fromFlash : Task Unit (Option Bytes)).run.run Rig.machine r
    located = .ok (some ⟨0x1610, 4⟩) ∧ Inside area ⟨0x1610, 4⟩ ∧ Announced Rig.machine r area 4 ∧
    fetched.value = .ok (some [1, 0, 0, 9]) ∧
    ∃ found start, (Rig.machine.respond (.findArea areaName) r).1 = some found ∧
      0x600 ≤ start ∧ start + 4 ≤ found.len.toNat := by
  intro r area located fetched
  have hlocated : located = .ok (some ⟨0x1610, 4⟩) := by decide +kernel
  have hfetched : fetched.value = .ok (some [1, 0, 0, 9]) := by decide +kernel
  have hdisplays : ∀ step ∈ fetched.steps, step.Displays r.flash.bytes.byteAt :=
    fun step hstep => Rig.displays_of_mem_steps hstep
  obtain ⟨-, hregion, -, hblob⟩ := @blob_within_area Unit Rig Rig.machine r area
  obtain ⟨hinside, hannounced, -⟩ := hregion _ hlocated
  obtain ⟨found, start, hfound, hstart, hstop, -⟩ := hblob _ hdisplays _ hfetched
  exact ⟨hlocated, hinside, (hannounced 4).1 ⟨rfl, rfl⟩, hfetched, found, start, hfound, hstart,
    hstop⟩

end ProductData
end BootHandoff

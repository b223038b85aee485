/-
# The bench shows its flash as it is

A bank keeps its writes apart and lays them over one another only when it is read.
Still it has one byte at each place, that of the latest write there
(`Bank.byteAt`), and every reading shows these bytes.  So a reading of a stretch
is that stretch of the whole (`Bank.take_drop_read`), and a chip without faults
maps and reads what it holds.

`Rig.withProductData` is the standard bench with an area for product data.
-/

import BootHandoff.Proofs.Bench.Exact
import BootHandoff.Proofs.Platform.Trace
import BootHandoff.Proofs.ProductData.Placement

namespace BootHandoff
namespace Bench

open Flash Platform ProductData

namespace Bank

variable {view bs : Bytes} {start place i len : Nat}

/-- What a write has for a place. -/
def written? (place : Nat) : Nat × Bytes → Option UInt8
  | (start, bs) => if start ≤ place then bs[place - start]? else none

/-- The byte at a place: that of the latest write there, or the background. -/
def byteAt (b : Bank) (place : Nat) : UInt8 :=
  (b.writes.findSome? (written? place)).getD b.background

/-- A write over a view shows where it has something. -/
theorem getElem?_overlay (hi : i < view.length) :
    (overlay start view place bs)[i]? = (written? (start + i) (place, bs)).or view[i]? := by
  unfold overlay written?
  simp only
  split
  · split
    · rw [List.getElem?_eq_none (l := bs) (by omega), Option.none_or]
    · rfl
  split
  · -- The write starts in front of the view, and from the view's start on it shows.
    rw [if_pos (by omega), List.getElem?_append]
    simp only [List.length_take, List.length_drop]
    split
    · rw [List.getElem?_take_of_lt hi, List.getElem?_drop,
        show start - place + i = start + i - place by omega, List.getElem?_eq_getElem (by omega),
        Option.some_or]
    · rw [List.getElem?_eq_none (l := bs) (by omega), List.getElem?_drop, Option.none_or]
      congr 1
      omega
  · rw [List.append_assoc, List.getElem?_append]
    simp only [List.length_take]
    split
    · rw [if_neg (by omega), List.getElem?_take_of_lt (by omega), Option.none_or]
    rw [if_pos (by omega), List.getElem?_append, List.length_take]
    split
    · rw [List.getElem?_take_of_lt (by omega),
        show i - min (place - start) view.length = start + i - place by omega,
        List.getElem?_eq_getElem (by omega), Option.some_or]
    · rw [List.getElem?_eq_none (l := bs) (by omega), List.getElem?_drop, Option.none_or]
      congr 1
      omega

theorem getElem?_read (b : Bank) (hi : i < len) :
    (b.read start len)[i]? = some (b.byteAt (start + i)) := by
  unfold read byteAt
  induction b.writes with
  | nil => simp [hi]
  | cons write writes ih =>
    have hview := (length_read ⟨b.size, b.background, writes⟩ start len).symm
    rw [List.foldr_cons, getElem?_overlay (hview ▸ hi), ih, List.findSome?_cons]
    cases written? (start + i) write <;> rfl

/-- **What is read is a stretch of the whole.** -/
theorem take_drop_read (b : Bank) (h : start + len ≤ b.size) :
    ((b.read 0 b.size).drop start).take len = b.read start len := by
  apply List.ext_getElem?
  intro i
  by_cases hi : i < len
  · rw [List.getElem?_take_of_lt hi, List.getElem?_drop, b.getElem?_read (by omega),
      b.getElem?_read hi, Nat.zero_add]
  · rw [List.getElem?_eq_none (by rw [List.length_take]; omega),
      List.getElem?_eq_none (by rw [length_read]; omega)]

/-- What was just written is read. -/
theorem read_write (b : Bank) (place : Nat) (bs : Bytes) :
    (b.write place bs).read place bs.length = bs := by
  apply List.ext_getElem?
  intro i
  by_cases hi : i < bs.length
  · have hwritten : written? (place + i) (place, bs) = some bs[i] := by
      rw [written?, if_pos (by omega), Nat.add_sub_cancel_left, List.getElem?_eq_getElem hi]
    rw [getElem?_read _ hi, byteAt, write, List.findSome?_cons, hwritten,
      List.getElem?_eq_getElem hi]
    rfl
  · rw [List.getElem?_eq_none (by rw [length_read]; omega), List.getElem?_eq_none (by omega)]

end Bank

namespace FlashChip

variable {f : FlashChip} {offset : UInt32}

/-- The bytes that a chip holds. -/
def contents (f : FlashChip) : Bytes := f.bytes.read 0 f.bytes.size

theorem length_contents (f : FlashChip) : f.contents.length = f.bytes.size :=
  Bank.length_read _ _ _

theorem map_eq (hlimit : f.mapLimit = none) {len : UInt32}
    (h : offset.toNat + len.toNat ≤ f.contents.length) :
    f.map offset len = .ok ((f.contents.drop offset.toNat).take len.toNat) := by
  rw [length_contents] at h
  rw [map, if_pos h, hlimit, contents, Bank.take_drop_read _ h]
  rfl

theorem read_eq (hlimit : f.readLimit = none) {n : Nat} (buf : Buffer n)
    (h : offset.toNat + n ≤ f.contents.length) :
    (f.read offset buf).1 =
      (UInt64.ofNat n, buf.overwrite ((f.contents.drop offset.toNat).take n)) := by
  rw [length_contents] at h
  have hcount : limited f.readLimit (min n (f.bytes.size - offset.toNat)) = n := by
    rw [hlimit]
    show min n (f.bytes.size - offset.toNat) = n
    omega
  simp only [read, hcount, contents, Bank.take_drop_read _ h]

theorem limited_le (limit : Option Nat) (n : Nat) : limited limit n ≤ n := by
  cases limit with
  | none => exact Nat.le_refl n
  | some most => exact Nat.min_le_left n most

/-- A read that is not cut short gives what the chip holds. -/
theorem get_of_read {n : Nat} {area held : Buffer n} {count : UInt64}
    (h : (count, held) = (f.read offset area).1) (hcount : count.toNat = n) (i : Fin n) :
    held.get i = f.bytes.byteAt (offset.toNat + i) := by
  obtain ⟨rfl, rfl⟩ := Prod.mk.inj h
  have hle := limited_le f.readLimit (min n (f.bytes.size - offset.toNat))
  have hall : limited f.readLimit (min n (f.bytes.size - offset.toNat)) = n := by
    rw [UInt64.toNat_ofNat'] at hcount
    have := Nat.mod_le (limited f.readLimit (min n (f.bytes.size - offset.toNat))) (2 ^ 64)
    omega
  have hbytes := Buffer.bytes_overwrite_of_eq area (Bank.length_read f.bytes offset.toNat n)
  refine Option.some.inj ((Buffer.getElem?_bytes _ i).symm.trans ?_)
  rw [hall, hbytes, Bank.getElem?_read _ i.isLt]

/-- A mapping shows what the chip holds, or the front of it. -/
theorem displays_of_map {len : UInt32} {shown : Bytes} (h : .ok shown = f.map offset len) :
    (⟨.mapFlash offset len, .ok shown⟩ : Step).Displays f.bytes.byteAt := by
  unfold map at h
  split at h
  · obtain rfl := Except.ok.inj h
    have hlength := Bank.length_read f.bytes offset.toNat (limited f.mapLimit len.toNat)
    refine ⟨Nat.le_trans (Nat.le_of_eq hlength) (limited_le _ _), fun i hi => ?_⟩
    exact (List.getElem_eq_iff hi).2 (Bank.getElem?_read _ (hlength ▸ hi))
  · cases h

end FlashChip

namespace Rig

variable {α : Type} {r : Rig}

/-- No query changes what the chip holds, its map, or how much it shows. -/
theorem respond_flash (q : Query) (r : Rig) :
    (respond q r).2.flash.contents = r.flash.contents ∧
      (respond q r).2.flash.areas = r.flash.areas ∧
      (respond q r).2.flash.mapLimit = r.flash.mapLimit ∧
      (respond q r).2.flash.readLimit = r.flash.readLimit := by
  cases q with
  | openFlash =>
    show r.flash.open.2.contents = _ ∧ r.flash.open.2.areas = _ ∧ r.flash.open.2.mapLimit = _ ∧
      r.flash.open.2.readLimit = _
    unfold FlashChip.open
    split <;> exact ⟨rfl, rfl, rfl, rfl⟩
  | _ => exact ⟨rfl, rfl, rfl, rfl⟩

/-- **A bench whose chip has no faults shows its flash,** whatever is run. -/
theorem shows_of_mem_steps {x : Firmware α} {area : Region} (hmap : r.flash.mapLimit = none)
    (hread : r.flash.readLimit = none) (harea : r.flash.findArea areaName = some area) {step : Step}
    (hstep : step ∈ (x.run machine r).steps) : Shows r.flash.contents area step := by
  have hkeeps : ∀ q t, (t.flash.contents = r.flash.contents ∧ t.flash.areas = r.flash.areas ∧
        t.flash.mapLimit = none ∧ t.flash.readLimit = none) →
      (respond q t).2.flash.contents = r.flash.contents ∧
        (respond q t).2.flash.areas = r.flash.areas ∧
        (respond q t).2.flash.mapLimit = none ∧ (respond q t).2.flash.readLimit = none := by
    intro q t ⟨hcontents, hareas, hmap, hread⟩
    obtain ⟨hcontents', hareas', hmap', hread'⟩ := respond_flash q t
    exact ⟨hcontents'.trans hcontents, hareas'.trans hareas, hmap'.trans hmap, hread'.trans hread⟩
  obtain ⟨t, ⟨hcontents, hareas, hmap, hread⟩, hanswer⟩ :=
    Firmware.answered_of_invariant hkeeps ⟨rfl, rfl, hmap, hread⟩ hstep
  obtain ⟨q, answer⟩ := step
  cases q with
  | findArea name =>
    rintro rfl
    rw [show answer = t.flash.areas.lookup areaName from hanswer, hareas]
    exact harea
  | mapFlash offset len =>
    intro hinside
    rw [← hcontents] at hinside ⊢
    exact hanswer.trans (FlashChip.map_eq hmap hinside)
  | readFlash offset n buf =>
    intro hinside
    rw [← hcontents] at hinside ⊢
    exact hanswer.trans (FlashChip.read_eq hread buf hinside)
  | _ => trivial

/-- No query changes the bytes of the chip. -/
theorem respond_bytes (q : Query) (r : Rig) : (respond q r).2.flash.bytes = r.flash.bytes := by
  cases q with
  | openFlash =>
    show r.flash.open.2.bytes = _
    unfold FlashChip.open
    split <;> rfl
  | _ => rfl

/-- Each answer in a run is that of a chip with the bytes of the first one. -/
theorem answered_of_mem_steps {x : Firmware α} {step : Step}
    (hstep : step ∈ (x.run machine r).steps) :
    ∃ t : Rig, t.flash.bytes = r.flash.bytes ∧ step.answer = (respond step.query t).1 :=
  Firmware.answered_of_invariant (I := fun t => t.flash.bytes = r.flash.bytes)
    (fun q t ht => (respond_bytes q t).trans ht) rfl hstep

/-- **What a bench delivers in full is what its chip holds,** whatever is run. -/
theorem delivers_of_mem_steps {x : Firmware α} {step : Step}
    (hstep : step ∈ (x.run machine r).steps) : step.Delivers r.flash.bytes.byteAt := by
  obtain ⟨t, hbytes, hanswer⟩ := answered_of_mem_steps hstep
  obtain ⟨q, answer⟩ := step
  cases q with
  | readFlash offset n area =>
    intro hcount i
    rw [← hbytes]
    exact FlashChip.get_of_read hanswer hcount i
  | _ => trivial

/-- **What a bench displays is what its chip holds,** whatever is run. -/
theorem displays_of_mem_steps {x : Firmware α} {step : Step}
    (hstep : step ∈ (x.run machine r).steps) : step.Displays r.flash.bytes.byteAt := by
  obtain ⟨t, hbytes, hanswer⟩ := answered_of_mem_steps hstep
  obtain ⟨q, answer⟩ := step
  cases q with
  | mapFlash offset len =>
    cases answer with
    | error e => trivial
    | ok shown =>
      rw [← hbytes]
      exact FlashChip.displays_of_map hanswer
  | _ => trivial

/-- The standard bench with an area for product data on its flash, and these bytes
where the product data is looked for. -/
def withProductData (bs : Bytes) : Rig :=
  { standard with
    flash := { standard.flash.addArea areaName ⟨0x1000, 0x1000⟩ with
      bytes := standard.flash.bytes.write 0x1600 bs } }

theorem length_contents_withProductData (bs : Bytes) :
    (withProductData bs).flash.contents.length = 0x100000 :=
  FlashChip.length_contents _

theorem prefix_contents_withProductData {bs : Bytes} (h : 0x1600 + bs.length ≤ 0x100000) :
    bs <+: (withProductData bs).flash.contents.drop 0x1600 := by
  have hread : ((withProductData bs).flash.contents.drop 0x1600).take bs.length = bs :=
    (Bank.take_drop_read _ h).trans (Bank.read_write _ _ _)
  exact List.prefix_iff_eq_take.2 hread.symm

end Rig
end Bench
end BootHandoff

/-
# Copying an image touches its own bytes only

An image is read over the front of the memory that was granted, and that front
is stored.  Whatever memory was granted and however many bytes arrive, the
store is at the base, it is not longer than the image, and after a copy that
succeeded it is exactly what the flash delivered (`path_copyToMemory`).
-/

import BootHandoff.Image.Copy
import BootHandoff.Proofs.Platform.Asks
import BootHandoff.Proofs.Platform.Trace

namespace BootHandoff
namespace Image

open Flash Platform

variable {region : Region} {steps : List Step}

/-- How a read ends that `count` bytes came of. -/
def readResult (region : Region) (count : UInt64) : Except (Stop LoadError) Unit :=
  if count = region.len.toUInt64 then .ok ()
  else .error (.error (.shortRead region.len.toUInt64 count))

theorem readResult_eq_ok_iff {count : UInt64} :
    readResult region count = .ok () ↔ count = region.len.toUInt64 := by
  unfold readResult
  split <;> simp_all

theorem path_readRegion {n : Nat} {area area' : Buffer n} {result : Except (Stop LoadError) Unit}
    (h : (readRegion region).Path area steps result area') :
    (n < region.len.toNat ∧ steps = [] ∧ result = .error (.halt .indexOutOfBounds) ∧
      area' = area) ∨
    ∃ count front, region.len.toNat ≤ n ∧
      steps = [⟨.readFlash region.offset _ (Buffer.ofBytes (area.bytes.take region.len.toNat)),
        (count, front)⟩] ∧
      result = readResult region count ∧ area' = area.overwrite front.bytes := by
  replace h := Action.path_get_bind_iff.1 h
  split at h
  · rename_i hle
    obtain ⟨⟨count, front⟩, rest, rfl, hrest⟩ :=
      (Action.path_query_bind_iff (q := .readFlash _ _ _)).1 h
    replace hrest := Action.path_set_bind_iff.1 hrest
    unfold readResult
    split at hrest
    · obtain ⟨rfl, rfl, rfl⟩ := Action.path_pure_iff.1 hrest
      rename_i hcount
      exact .inr ⟨count, front, hle, rfl, (if_pos hcount).symm, rfl⟩
    · obtain ⟨rfl, rfl, rfl⟩ := Action.path_fail_iff.1 hrest
      rename_i hcount
      exact .inr ⟨count, front, hle, rfl, (if_neg hcount).symm, rfl⟩
  · obtain ⟨rfl, rfl, rfl⟩ := Action.path_halt_iff.1 h
    rename_i hlt
    exact .inl ⟨Nat.not_le.1 hlt, rfl, rfl, rfl⟩

/-- A read over bytes whose number is known under another name. -/
theorem readFlash_step_eq {offset : UInt32} {bytes : Bytes} {n : Nat} (h : bytes.length = n)
    (count : UInt64) (front : Buffer bytes.length) :
    (⟨.readFlash offset bytes.length (Buffer.ofBytes bytes), (count, front)⟩ : Step) =
      ⟨.readFlash offset n ⟨bytes, h⟩, (count, ⟨front.bytes, front.length_bytes.trans h⟩)⟩ := by
  subst h
  rfl

/-- **What a copy reads and stores.** -/
theorem path_copyToMemory {base : UInt64} {held : Bytes} {result : Except (Stop LoadError) Unit}
    (h : (copyToMemory region base held).Path steps result) :
    (held.length < region.len.toNat ∧ steps = [⟨.store base held, ()⟩] ∧
      result = .error (.halt .indexOutOfBounds)) ∨
    ∃ area count front, area.bytes = held.take region.len.toNat ∧
      steps = [⟨.readFlash region.offset region.len.toNat area, (count, front)⟩,
        ⟨.store base front.bytes, ()⟩] ∧
      result = readResult region count := by
  obtain ⟨first, rest, ⟨ending, area⟩, rfl, hread, hstore⟩ := Task.path_lift_bind_iff.1 h
  obtain ⟨⟨⟩, last, rfl, hend⟩ := (Task.path_query_bind_iff (q := .store base _)).1 hstore
  obtain ⟨rfl, rfl⟩ := Task.path_settle_iff.1 hend
  rcases path_readRegion hread with ⟨hlt, rfl, rfl, rfl⟩ | ⟨count, front, hle, rfl, rfl, rfl⟩
  · refine .inl ⟨hlt, ?_, rfl⟩
    rw [Buffer.bytes_ofBytes, List.take_of_length_le (Nat.le_of_lt hlt)]
    rfl
  · have hlen : (held.take region.len.toNat).length = region.len.toNat :=
      List.length_take_of_le hle
    have hfront : front.bytes.length = region.len.toNat := front.length_bytes.trans hlen
    have hstored : ((Buffer.ofBytes held).overwrite front.bytes).bytes.take region.len.toNat =
        front.bytes := by
      rw [Buffer.bytes_overwrite_of_le _ (by omega), List.take_left' hfront]
    refine .inr ⟨⟨held.take region.len.toNat, hlen⟩, count, ⟨front.bytes, hfront⟩, rfl, ?_, rfl⟩
    rw [hstored, ← readFlash_step_eq hlen count front]
    rfl

/-- The queries of a copy. -/
def Copies : Query → Prop
  | .window .. | .readFlash .. | .store .. | .log .info _ => True
  | _ => False

theorem Copies.processor?_eq_none {q : Query} (h : Copies q) : q.processor? = none := by
  cases q <;> first | rfl | cases h

theorem Copies.not_namesImage {q : Query} (h : Copies q) : ¬q.NamesImage := by
  cases q <;> first | exact id | cases h

theorem asks_copyToMemory (region : Region) (base : UInt64) (held : Bytes) :
    (copyToMemory region base held).Asks Copies := by
  intro steps result h
  rcases path_copyToMemory h with ⟨-, rfl, -⟩ | ⟨area, count, front, -, rfl, -⟩
  · exact List.forall_mem_singleton.2 trivial
  · exact List.forall_mem_cons.2 ⟨trivial, List.forall_mem_singleton.2 trivial⟩

end Image
end BootHandoff

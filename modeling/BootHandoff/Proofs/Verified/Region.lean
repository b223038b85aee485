/-
# The registry in the bytes of its region

What the verifying stage knows of the images comes over as the bytes of a region, which may
be missing, too short, or longer than the record.  This is what the slots hold, told by the
bytes alone:

| bytes | of slot `i` |
| --- | --- |
| `12 + 8 i` and the three behind it | the address, least significant byte first |
| `16 + 8 i` and the three behind it | the size, least significant byte first |

There is a record exactly if there are 60 bytes, and nothing behind them is looked at.  The
bytes of a record that was written are read as that record (`ofRegion_write_append`).
-/

import BootHandoff.Proofs.Layout.Faithful
import BootHandoff.Proofs.Verified.Slot

namespace BootHandoff

/-- The number that four bytes from a place on stand for, least significant byte first. -/
def Bytes.wordAt (bs : Bytes) (place : Nat) : Nat :=
  (bs.getD place 0).toNat + 0x100 * (bs.getD (place + 1) 0).toNat +
    0x10000 * (bs.getD (place + 2) 0).toNat + 0x1000000 * (bs.getD (place + 3) 0).toNat

/-- Four bytes that are there are read as their number. -/
theorem Bytes.ofLE_eq_wordAt {bs : Bytes} {place : Nat} (h : place + 4 ≤ bs.length) :
    ofLE ((bs.drop place).take 4) = bs.wordAt place := by
  have hbyte : ∀ k, bs.getD (place + k) 0 = (bs.drop place).getD k 0 := fun k => by
    rw [List.getD_eq_getElem?_getD, List.getD_eq_getElem?_getD, List.getElem?_drop]
  have hfirst : bs.getD place 0 = (bs.drop place).getD 0 0 := hbyte 0
  have hlen : 4 ≤ (bs.drop place).length := by
    rw [List.length_drop]
    omega
  rw [wordAt, hfirst, hbyte 1, hbyte 2, hbyte 3]
  match bs.drop place, hlen with
  | a :: b :: c :: d :: _, _ =>
    simp [ofLE]
    omega

theorem Layout.toNat_read_u32 {bs : Bytes} {place : Nat} (h : place + 4 ≤ bs.length) :
    (Layout.u32.read (bs.drop place)).toNat = bs.wordAt place := by
  have hlen : ((bs.drop place).take 4).length = 4 := by
    rw [List.length_take, List.length_drop]
    omega
  have hlt : Bytes.ofLE ((bs.drop place).take 4) < 2 ^ 32 := by
    have hlt := Bytes.ofLE_lt ((bs.drop place).take 4)
    rw [hlen] at hlt
    exact hlt
  show (UInt32.ofNat (Bytes.ofLE ((bs.drop place).take 4))).toNat = _
  rw [UInt32.toNat_ofNat', Nat.mod_eq_of_lt hlt, Bytes.ofLE_eq_wordAt h]

namespace Verified

variable {bs bs' : Bytes} {index : UInt8}

/-- A slot that is read is read off its own eight bytes. -/
theorem Record.read_components (bs : Bytes) {i : Nat} (h : i < 6) :
    (Record.layout.read bs).components[i] = Component.layout.read (bs.drop (12 + 8 * i)) := by
  show (Vector.ofFn fun i : Fin 6 =>
    Component.layout.read ((((bs.drop 4).drop 4).drop 4).drop (8 * i)))[i] = _
  have hplace : 4 + (4 + (4 + 8 * i)) = 12 + 8 * i := by omega
  rw [Vector.getElem_ofFn, List.drop_drop, List.drop_drop, List.drop_drop, hplace]

/-- The address and the size in a slot are the numbers that stand there. -/
theorem Component.toNat_read {place : Nat} (h : place + 8 ≤ bs.length) :
    (Component.layout.read (bs.drop place)).address.toNat = bs.wordAt place ∧
      (Component.layout.read (bs.drop place)).size.toNat = bs.wordAt (place + 4) := by
  refine ⟨Layout.toNat_read_u32 (by omega), ?_⟩
  show (Layout.u32.read ((bs.drop place).drop 4)).toNat = _
  rw [List.drop_drop, Layout.toNat_read_u32 (by omega)]

namespace Registry

theorem component_of_lt {r : Registry} {record : Record} (hrecord : r.record = some record)
    (h : index.toNat < 6) : r.component index = .ok (some record.components[index.toNat]) := by
  unfold component
  rw [dif_pos h, hrecord]
  rfl

/-- Looking at a slot halts for an index outside of the slots, and for nothing else. -/
theorem component_eq_error_iff {r : Registry} {halt : Halt} :
    r.component index = .error halt ↔ 6 ≤ index.toNat ∧ halt = .assertionFailed := by
  unfold component
  split
  · rename_i hlt
    exact iff_of_false nofun fun h => Nat.not_le.2 hlt h.1
  · rename_i hge
    rw [Except.error.injEq, eq_comm]
    exact (and_iff_right (Nat.not_lt.1 hge)).symm

theorem ofRegion_of_le (h : 60 ≤ bs.length) :
    ofRegion (some bs) = ⟨some (Record.layout.read bs)⟩ :=
  congrArg Registry.mk (if_pos h)

theorem ofRegion_of_lt (h : bs.length < 60) : ofRegion (some bs) = unavailable :=
  congrArg Registry.mk (if_neg (Nat.not_le.2 h))

theorem isAvailable_ofRegion_iff : (ofRegion (some bs)).isAvailable = true ↔ 60 ≤ bs.length := by
  rcases Nat.lt_or_ge bs.length 60 with hlt | hle
  · rw [ofRegion_of_lt hlt]
    exact iff_of_false nofun (Nat.not_le.2 hlt)
  · rw [ofRegion_of_le hle]
    exact iff_of_true rfl hle

/-- The bytes of a record, with any others behind them, are read as the record. -/
theorem ofRegion_write_append (record : Record) (tail : Bytes) :
    ofRegion (some (Record.layout.write record ++ tail)) = ⟨some record⟩ := by
  have hlen : (Record.layout.write record).length = 60 :=
    Record.faithful_layout.length_write record
  rw [ofRegion_of_le (by rw [List.length_append]; omega), Record.faithful_layout.read_write]

/-- Only the first 60 bytes of a region are looked at. -/
theorem ofRegion_eq_of_take (h : bs'.take 60 = bs.take 60) :
    ofRegion (some bs') = ofRegion (some bs) := by
  have hlen := congrArg List.length h
  rw [List.length_take, List.length_take] at hlen
  rcases Nat.lt_or_ge bs.length 60 with hlt | hle
  · rw [ofRegion_of_lt hlt, ofRegion_of_lt (by omega)]
  · -- What was read from the one is written at the front of the other.
    have hbs' : bs' = Record.layout.write (Record.layout.read bs) ++ bs'.drop 60 := by
      rw [Record.faithful_layout.write_read bs hle]
      show bs' = bs.take 60 ++ _
      rw [← h, List.take_append_drop]
    rw [hbs', ofRegion_write_append, ofRegion_of_le hle]

/-- What a region of 60 bytes or more says of a slot. -/
theorem exists_slot (h : 60 ≤ bs.length) (hindex : index.toNat < 6) :
    ∃ c : Component, c.address.toNat = bs.wordAt (12 + 8 * index.toNat) ∧
      c.size.toNat = bs.wordAt (16 + 8 * index.toNat) ∧
      (ofRegion (some bs)).component index = .ok (some c) ∧
      (ofRegion (some bs)).verified index = .ok (if c.size = 0 then none else some c) := by
  have hplace : 12 + 8 * index.toNat + 8 ≤ bs.length := by omega
  obtain ⟨haddress, hsize⟩ := Component.toNat_read hplace
  rw [Nat.add_right_comm] at hsize
  rw [ofRegion_of_le h, component_of_lt rfl hindex, verified_of_lt rfl hindex,
    Record.read_components bs hindex]
  refine ⟨_, haddress, hsize, rfl, ?_⟩
  split
  · rename_i hempty
    rw [Option.filter_some_neg (Component.isPresent_eq_false_iff.2 hempty)]
  · rename_i hsome
    rw [Option.filter_some_pos (Component.isPresent_iff.2 hsome)]

/-- **The registry says what stands in its region.**  It has a record exactly if the region has
60 bytes.  Then every slot has the address and the size that stand at its place, and is a
verified image unless its size is zero; what follows the 60 bytes makes no difference.  The
bytes of a record, with any others behind them, say what the record says.  And a registry, with
a record or without one, halts for the indices outside of its slots, and for no others. -/
theorem slots_of_region (bs : Bytes) :
    ((ofRegion (some bs)).isAvailable = true ↔ 60 ≤ bs.length) ∧
    (60 ≤ bs.length → ∀ index : UInt8, index.toNat < 6 → ∃ c : Component,
      c.address.toNat = bs.wordAt (12 + 8 * index.toNat) ∧
      c.size.toNat = bs.wordAt (16 + 8 * index.toNat) ∧
      (ofRegion (some bs)).component index = .ok (some c) ∧
      (ofRegion (some bs)).verified index = .ok (if c.size = 0 then none else some c)) ∧
    (∀ bs', bs'.take 60 = bs.take 60 → ofRegion (some bs') = ofRegion (some bs)) ∧
    (∀ (record : Record) (tail : Bytes) (index : UInt8),
      let read := ofRegion (some (Record.layout.write record ++ tail))
      read.component index = (⟨some record⟩ : Registry).component index ∧
        read.verified index = (⟨some record⟩ : Registry).verified index) ∧
    ∀ (registry : Registry) (index : UInt8) (halt : Halt),
      (registry.component index = .error halt ↔ 6 ≤ index.toNat ∧ halt = .assertionFailed) ∧
      (registry.verified index = .error halt ↔ 6 ≤ index.toNat ∧ halt = .assertionFailed) := by
  refine ⟨isAvailable_ofRegion_iff, fun h index hindex => exists_slot h hindex,
    fun bs' h => ofRegion_eq_of_take h, fun record tail index => ?_,
    fun registry index halt => ⟨component_eq_error_iff, verified_eq_error_iff⟩⟩
  rw [ofRegion_write_append]
  exact ⟨rfl, rfl⟩

end Registry

end Verified
end BootHandoff

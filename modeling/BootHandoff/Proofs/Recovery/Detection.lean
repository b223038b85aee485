/-
# What the check of the non-volatile block detects

The bits of a block are numbered from the highest bit of its first byte to the lowest
bit of its last one, which is the order in which the check reads them.  A block is
valid if and only if the divisor of the check divides the polynomial of all its bits
(`isValid_iff_dvd`), so an error in a valid block is missed if and only if the divisor
divides the polynomial of the error (`isValid_xor_iff_dvd`).

The divisor `X ^ 8 + X ^ 2 + X + 1` has the root `1` and a constant term.  It divides
no error of an odd number of bits and none that lies within eight places, and in
particular none that lies within one byte.
-/

import BootHandoff.Proofs.Crc8.Errors
import BootHandoff.Recovery.Block

namespace BootHandoff
namespace Recovery
namespace NvBlock

open Crc8 Polynomial

variable {b e : NvBlock}

/-- The bits of a block, from the highest of the first byte to the lowest of the
last. -/
def bits (b : NvBlock) : List Bool := b.bytes.flatMap msbFirst

/-- The block with an error: what is set in `e` is turned over. -/
def xor (b e : NvBlock) : NvBlock where
  bytes := List.zipWith (· ^^^ ·) b.bytes e.bytes
  length_bytes := by rw [List.length_zipWith, b.length_bytes, e.length_bytes, Nat.min_self]

theorem ofBits_bits_xor (b e : NvBlock) :
    ofBits (b.xor e).bits = ofBits b.bits + ofBits e.bits :=
  ofBits_zipWith_xor (b.length_bytes.trans e.length_bytes.symm)

/-- **A block is valid if the divisor divides it,** the check at its end included. -/
theorem isValid_iff_dvd : b.isValid = true ↔ divisor 0x07 ∣ ofBits b.bits := by
  have hbytes : b.bytes = b.bytes.take 15 ++ [b.get 15] := by
    have hlast : b.bytes.drop 15 = [b.get 15] := by
      rw [List.drop_eq_getElem_cons (by rw [b.length_bytes]; decide),
        List.drop_of_length_le (Nat.le_of_eq b.length_bytes)]
      rfl
    rw [← hlast, List.take_append_drop]
  rw [bits, hbytes, dvd_iff_eq_checksum, isValid, beq_iff_eq]
  rfl

/-- **An error in a valid block is missed only if the divisor divides it.** -/
theorem isValid_xor_iff_dvd (h : b.isValid = true) :
    (b.xor e).isValid = true ↔ divisor 0x07 ∣ ofBits e.bits := by
  rw [isValid_iff_dvd, ofBits_bits_xor]
  exact dvd_add_right (isValid_iff_dvd.1 h)

theorem eval_one_divisor : (divisor 0x07).eval 1 = 0 := by
  rw [divisor, ← ofBits_msbFirst, eval_add, eval_one_ofBits, eval_pow, eval_X, one_pow]
  decide

theorem coeff_zero_divisor : (divisor 0x07).coeff 0 ≠ 0 := by
  rw [divisor, coeff_add, coeff_ofByte, coeff_X_pow]
  decide

/-- An error that is one sets a bit. -/
theorem true_mem_bits (h : e ≠ Buffer.zero 16) : true ∈ e.bits := by
  by_contra hclear
  refine h (Buffer.ext (List.eq_replicate_iff.2 ⟨e.length_bytes, eq_zero_of_bits ?_⟩))
  intro bit hbit
  cases bit
  · rfl
  · exact absurd hbit hclear

/-- **An odd number of bits, and bits within eight places, are detected.** -/
theorem isValid_xor_eq_false (hvalid : b.isValid = true) (he : e ≠ Buffer.zero 16)
    (herror : Odd (e.bits.count true) ∨ ∃ first, InBurst e.bits first) :
    (b.xor e).isValid = false := by
  refine eq_false_of_ne_true fun hmissed => ?_
  have hdvd := (isValid_xor_iff_dvd hvalid).1 hmissed
  rcases herror with hodd | ⟨first, hburst⟩
  · exact not_dvd_of_odd eval_one_divisor hodd hdvd
  · exact not_dvd_of_burst coeff_zero_divisor (degree_divisor 0x07) hburst (true_mem_bits he) hdvd

@[simp] theorem get_xor (b e : NvBlock) (i : Fin 16) : (b.xor e).get i = b.get i ^^^ e.get i :=
  List.getElem_zipWith

/-- A change of one byte is an error in that byte alone. -/
theorem set_eq_xor (b : NvBlock) (i : Fin 16) (v : UInt8) :
    Buffer.set b i v = b.xor (Buffer.set (Buffer.zero 16) i (b.get i ^^^ v)) := by
  refine Buffer.ext_get fun j => ?_
  rw [get_xor]
  by_cases hij : i = j
  · subst hij
    rw [Buffer.get_set_self, Buffer.get_set_self, ← UInt8.xor_assoc, UInt8.xor_self,
      UInt8.zero_xor]
  · rw [Buffer.get_set_of_ne _ hij, Buffer.get_set_of_ne _ hij, Buffer.get_zero, UInt8.xor_zero]

/-- An error in one byte lies within its eight places. -/
theorem inBurst_set (i : Fin 16) (x : UInt8) :
    InBurst (bits (Buffer.set (Buffer.zero 16) i x)) (8 * i) := by
  intro p hp
  rw [bits, getElem?_flatMap_msbFirst, Option.map_eq_some_iff] at hp
  obtain ⟨c, hc, hone⟩ := hp
  have hbyte : i.val = p / 8 := by
    by_contra hother
    -- All other bytes are clear.
    have hclear : c = 0 := by
      simp only [Buffer.set, Buffer.bytes_zero, List.getElem?_set_ne hother] at hc
      exact List.eq_of_mem_replicate (List.mem_of_getElem? hc)
    simp [hclear] at hone
  omega

/-- **What the check of a block detects.**  An error in a valid block is detected if it
turns over an odd number of bits, or bits that all lie within eight places.  So is
every change of one byte, the check itself included. -/
theorem isValid_eq_false_of_error {b : NvBlock} (hvalid : b.isValid = true) :
    (∀ e : NvBlock, e ≠ Buffer.zero 16 →
      Odd (e.bits.count true) ∨ (∃ first, InBurst e.bits first) → (b.xor e).isValid = false) ∧
    ∀ (i : Fin 16) (v : UInt8), v ≠ b.get i → isValid (Buffer.set b i v) = false := by
  refine ⟨fun e he herror => isValid_xor_eq_false hvalid he herror, fun i v hv => ?_⟩
  rw [set_eq_xor]
  refine isValid_xor_eq_false hvalid (fun hzero => hv ?_) (.inr ⟨8 * i, inBurst_set i _⟩)
  have hbyte : b.get i ^^^ v = 0 := by
    rw [← Buffer.get_set_self (Buffer.zero 16) i (b.get i ^^^ v), hzero, Buffer.get_zero]
  exact (UInt8.xor_eq_zero_iff.1 hbyte).symm

/-- The hypotheses are satisfiable: a block with a reason for recovery, three bits far
from each other, two bits in neighbouring bytes, and another check. -/
theorem isValid_eq_false_of_error_sample :
    let b : NvBlock := withReason (Buffer.set (Buffer.zero 16) 0 0x30) 0x23
    let far : NvBlock := ⟨[0x80, 0, 0, 0x10, 0, 0, 0, 0, 0, 0, 0, 0, 0, 0, 0, 0x01], rfl⟩
    let near : NvBlock := ⟨[0, 0, 0, 0, 0, 0, 0, 0, 0, 0, 0, 0x01, 0x02, 0, 0, 0], rfl⟩
    b.isValid = true ∧ Odd (far.bits.count true) ∧ InBurst near.bits 95 ∧
      (b.xor far).isValid = false ∧ (b.xor near).isValid = false ∧
      isValid (Buffer.set b 15 (b.get 15 + 1)) = false := by
  intro b far near
  have hvalid : b.isValid = true := by decide +kernel
  have hodd : Odd (far.bits.count true) := by decide +kernel
  have hburst : InBurst near.bits 95 := by
    have hbits : ∀ i < near.bits.length, near.bits[i]? = some true → 95 ≤ i ∧ i < 103 := by
      decide +kernel
    intro i hone
    exact hbits i (List.getElem?_eq_some_iff.1 hone).1 hone
  obtain ⟨herror, hbyte⟩ := isValid_eq_false_of_error hvalid
  exact ⟨hvalid, hodd, hburst, herror far (by decide) (.inl hodd),
    herror near (by decide) (.inr ⟨95, hburst⟩), hbyte 15 _ (by decide +kernel)⟩

end NvBlock
end Recovery
end BootHandoff

/-
# A check of eight bits is a remainder

A byte stands for a polynomial over the field of two elements: its bit `i` is the
coefficient of `X ^ i` (`ofByte`).  Adding bytes bit by bit is adding polynomials,
and one shift of the register is one step of the division by `X ^ 8` plus the
algorithm's polynomial (`ofByte_shiftUp`).

`Algorithm.reference` is the check in these terms: the register starts as the
initial polynomial, the bits of the data are fed one by one into the division, the
highest bit of every byte first or, for an algorithm that reflects its input, the
lowest, and the remainder is reflected if the output is and added to a constant at
the end.  `checksum_eq_reference` says that every algorithm computes this, in
whatever parts the data comes.  `Algorithm.remainder_eq` says which remainder the
register is: that of one division of the whole of the data.
-/

import BootHandoff.Proofs.Crc8.Reversal
import Mathlib

namespace BootHandoff
namespace Crc8

open Polynomial

variable {g : (ZMod 2)[X]}

/-- The polynomial of a byte. -/
noncomputable def ofByte (b : UInt8) : (ZMod 2)[X] :=
  ∑ i ∈ Finset.range 8, if b.toBitVec.getLsbD i then X ^ i else 0

/-- The polynomial by which is divided. -/
noncomputable def divisor (poly : UInt8) : (ZMod 2)[X] := X ^ 8 + ofByte poly

/-- One step of the division: the remainder that a register and the next bit of the
data leave. -/
noncomputable def divide (g register : (ZMod 2)[X]) (bit : Bool) : (ZMod 2)[X] :=
  (X * register + if bit then X ^ 8 else 0) %ₘ g

/-- The polynomial of a string of bits, the highest first. -/
noncomputable def ofBits (bits : List Bool) : (ZMod 2)[X] :=
  bits.foldl (fun p bit => X * p + if bit then 1 else 0) 0

/-- The bits of a byte, the highest first. -/
def msbFirst (b : UInt8) : List Bool := (List.range 8).map b.toBitVec.getMsbD

/-- The bits of a byte, the lowest first. -/
def lsbFirst (b : UInt8) : List Bool := (List.range 8).map b.toBitVec.getLsbD

namespace Algorithm

/-- The bits of a byte in the order in which the algorithm reads them. -/
def bits (a : Algorithm) (b : UInt8) : List Bool := if a.reflectIn then lsbFirst b else msbFirst b

/-- What the division leaves of the data. -/
noncomputable def remainder (a : Algorithm) (data : Bytes) : (ZMod 2)[X] :=
  (data.flatMap a.bits).foldl (divide (divisor a.poly)) (ofByte a.init)

/-- The check of some data. -/
noncomputable def reference (a : Algorithm) (data : Bytes) : (ZMod 2)[X] :=
  (if a.reflectOut then (a.remainder data).reflect 7 else a.remainder data) + ofByte a.xorOut

end Algorithm

theorem coeff_of_bit (bit : Bool) (n i : Nat) :
    (if bit then (X : (ZMod 2)[X]) ^ n else 0).coeff i =
      if i = n then if bit then 1 else 0 else 0 := by
  cases bit <;> simp [coeff_X_pow]

theorem coeff_ofByte (b : UInt8) (i : Nat) :
    (ofByte b).coeff i = if b.toBitVec.getLsbD i then 1 else 0 := by
  simp only [ofByte, finsetSum_coeff, coeff_of_bit, Finset.sum_ite_eq]
  split
  · rfl
  · rename_i hi
    rw [BitVec.getLsbD_of_ge _ _ (by simpa using hi)]
    rfl

/-- **A polynomial is that of one byte at most.** -/
theorem ofByte_injective : Function.Injective ofByte := by
  intro b c h
  apply UInt8.toBitVec_inj.1
  apply BitVec.eq_of_getLsbD_eq
  intro i _
  have hi := congrArg (coeff · i) h
  simp only [coeff_ofByte] at hi
  cases hb : b.toBitVec.getLsbD i <;> cases hc : c.toBitVec.getLsbD i <;> simp_all

theorem degree_ofByte_lt (b : UInt8) : (ofByte b).degree < 8 := by
  refine (degree_lt_iff_coeff_zero (ofByte b) 8).2 fun i hi => ?_
  rw [coeff_ofByte, BitVec.getLsbD_of_ge _ _ hi]
  rfl

theorem ofByte_zero : ofByte 0 = 0 := by
  ext i
  simp [coeff_ofByte]

/-- **Bytes are added as polynomials.** -/
theorem ofByte_xor (b c : UInt8) : ofByte (b ^^^ c) = ofByte b + ofByte c := by
  ext i
  rw [coeff_add, coeff_ofByte, coeff_ofByte, coeff_ofByte, UInt8.toBitVec_xor, BitVec.getLsbD_xor]
  cases b.toBitVec.getLsbD i <;> cases c.toBitVec.getLsbD i <;> decide

/-- Turning a byte round reflects its polynomial. -/
theorem ofByte_reverse (b : UInt8) : ofByte (reverse b) = (ofByte b).reflect 7 := by
  ext i
  rw [coeff_reflect, coeff_ofByte, coeff_ofByte, toBitVec_reverse, BitVec.getLsbD_reverse]
  by_cases hi : i ≤ 7
  · rw [revAt_le hi, BitVec.getMsbD_eq_getLsbD, decide_eq_true (by omega), Bool.true_and]
  · rw [revAt_eq_self_of_lt (by omega), BitVec.getMsbD_of_ge _ _ (by omega),
      BitVec.getLsbD_of_ge _ _ (by omega)]

theorem ofBits_concat (bits : List Bool) (bit : Bool) :
    ofBits (bits ++ [bit]) = X * ofBits bits + if bit then 1 else 0 :=
  List.foldl_append

theorem ofBits_msbFirst (b : UInt8) : ofBits (msbFirst b) = ofByte b := by
  have hterm : ∀ (bit : Bool) (i : Nat),
      (if bit then (X : (ZMod 2)[X]) ^ i else 0) = X ^ i * if bit then 1 else 0 := by
    intro bit i
    cases bit <;> simp
  simp only [ofByte, hterm, Finset.sum_range_succ, Finset.sum_range_zero]
  simp only [ofBits, msbFirst, List.range_succ, List.range_zero, List.nil_append, List.cons_append,
    List.map_cons, List.map_nil, List.foldl_cons, List.foldl_nil, BitVec.getMsbD_eq_getLsbD,
    Nat.reduceLT, Nat.reduceSub, decide_true, Bool.true_and]
  ring

theorem monic_divisor (poly : UInt8) : (divisor poly).Monic :=
  monic_X_pow_add (degree_ofByte_lt poly)

theorem degree_divisor (poly : UInt8) : (divisor poly).degree = 8 := by
  rw [divisor, degree_add_eq_left_of_degree_lt] <;> rw [degree_X_pow]
  · rfl
  · exact degree_ofByte_lt poly

theorem ofByte_modByMonic (poly r : UInt8) : ofByte r %ₘ divisor poly = ofByte r := by
  rw [modByMonic_eq_self_iff (monic_divisor poly), degree_divisor]
  exact degree_ofByte_lt r

/-- A factor may be multiplied by a remainder instead of the whole. -/
theorem mul_modByMonic_modByMonic (hg : g.Monic) (p q : (ZMod 2)[X]) :
    (p * (q %ₘ g)) %ₘ g = (p * q) %ₘ g := by
  apply modByMonic_eq_of_dvd_sub hg
  rw [← mul_sub]
  exact dvd_mul_of_dvd_right (dvd_modByMonic_sub q g) p

theorem getLsbD_shiftLeft_one (r : UInt8) (i : Nat) :
    (r <<< 1).toBitVec.getLsbD i = (decide (0 < i ∧ i < 8) && r.toBitVec.getLsbD (i - 1)) := by
  cases i <;> simp

/-- A shift multiplies by `X`, but for the bit that leaves the register. -/
theorem X_mul_ofByte (r : UInt8) :
    X * ofByte r = ofByte (r <<< 1) + if r.toBitVec.getMsbD 0 then X ^ 8 else 0 := by
  have htop : r.toBitVec.getMsbD 0 = r.toBitVec.getLsbD 7 := rfl
  ext i
  rw [coeff_add, coeff_ofByte, getLsbD_shiftLeft_one, htop, coeff_of_bit]
  cases i with
  | zero => simp
  | succ i =>
    rw [coeff_X_mul, coeff_ofByte]
    rcases Nat.lt_trichotomy i 7 with hi | rfl | hi
    · simp [show i + 1 < 8 by omega, show i ≠ 7 by omega]
    · simp
    · simp [show i ≠ 7 by omega, BitVec.getLsbD_of_ge _ _ (show 8 ≤ i by omega)]

/-- **A shift of the register is a step of the division.** -/
theorem ofByte_shiftUp (poly r : UInt8) :
    ofByte (shiftUp poly r) = (X * ofByte r) %ₘ divisor poly := by
  have htwice := CharTwo.add_self_eq_zero (ofByte poly)
  refine (div_modByMonic_unique (if r.toBitVec.getMsbD 0 then 1 else 0) _ (monic_divisor poly)
    ⟨?_, ?_⟩).2.symm
  · rw [shiftUp_eq, ofByte_xor, X_mul_ofByte, divisor]
    split
    · -- The divisor is taken off once, and `poly` is in it and in the shift.
      linear_combination htwice
    · rw [ofByte_zero]
      ring
  · rw [degree_divisor]
    exact degree_ofByte_lt _

/-- Any number of shifts is one division. -/
theorem ofByte_repeat_shiftUp (poly : UInt8) (n : Nat) (r : UInt8) :
    ofByte (Nat.repeat (shiftUp poly) n r) = (X ^ n * ofByte r) %ₘ divisor poly := by
  induction n with
  | zero => rw [pow_zero, one_mul, ofByte_modByMonic, Nat.repeat]
  | succ n ih =>
    rw [Nat.repeat, ofByte_shiftUp, ih, mul_modByMonic_modByMonic (monic_divisor poly), pow_succ',
      mul_assoc]

/-- **The division of a string of bits,** done bit by bit, is one division. -/
theorem foldl_divide (hg : g.Monic) (register : (ZMod 2)[X]) (bits : List Bool) :
    bits.foldl (divide g) (register %ₘ g) =
      (X ^ bits.length * register + X ^ 8 * ofBits bits) %ₘ g := by
  -- By the last bit: what is in front of it has left a remainder already.
  induction bits using List.reverseRecOn with
  | nil => simp [ofBits]
  | append_singleton bits bit ih =>
    rw [List.foldl_append, ih, List.foldl_cons, List.foldl_nil, divide, add_modByMonic,
      mul_modByMonic_modByMonic hg, ← add_modByMonic, ofBits_concat, List.length_append,
      List.length_singleton]
    congr 1
    split <;> ring

namespace Algorithm

theorem msbFirst_orient (a : Algorithm) (b : UInt8) : msbFirst (a.orient b) = a.bits b := by
  unfold orient bits
  split
  · unfold msbFirst lsbFirst
    rw [toBitVec_reverse]
    exact List.map_congr_left fun i _ => BitVec.getMsbD_reverse
  · rfl

/-- **One byte of data is eight steps of the division.** -/
theorem ofByte_step (a : Algorithm) (r b : UInt8) :
    ofByte (a.straight.step r b) = (msbFirst b).foldl (divide (divisor a.poly)) (ofByte r) := by
  have hshift : a.straight.shift = shiftUp a.poly := rfl
  rw [step, hshift, ofByte_repeat_shiftUp, ofByte_xor, ← ofByte_modByMonic a.poly r,
    foldl_divide (monic_divisor a.poly), ofByte_modByMonic, ofBits_msbFirst, mul_add]
  rfl

theorem ofByte_update (a : Algorithm) (r : UInt8) (data : Bytes) :
    ofByte (a.straight.update r data) =
      (data.flatMap msbFirst).foldl (divide (divisor a.poly)) (ofByte r) := by
  unfold update
  induction data generalizing r with
  | nil => rfl
  | cons b data ih =>
    rw [List.foldl_cons, List.flatMap_cons, List.foldl_append, ih, ofByte_step]

/-- The register after some data, turned back if it was turned round, is the
remainder. -/
theorem ofByte_update_straight (a : Algorithm) (data : Bytes) :
    ofByte (a.straight.update a.init (data.map a.orient)) = a.remainder data := by
  rw [ofByte_update, List.flatMap_map, remainder]
  simp only [msbFirst_orient]

/-- **The register is the remainder of one division** of the whole of the data,
behind the initial register. -/
theorem remainder_eq (a : Algorithm) (data : Bytes) :
    a.remainder data = (X ^ (data.flatMap a.bits).length * ofByte a.init +
      X ^ 8 * ofBits (data.flatMap a.bits)) %ₘ divisor a.poly := by
  rw [remainder, ← ofByte_modByMonic a.poly a.init, foldl_divide (monic_divisor a.poly),
    ofByte_modByMonic]

theorem ofByte_checksum (a : Algorithm) (data : Bytes) :
    ofByte (a.checksum data) = a.reference data := by
  rw [checksum_eq_straight, checksum, finish, ofByte_xor, reference, ← ofByte_update_straight]
  show ofByte (if false != a.reflectOut then _ else _) + ofByte a.xorOut = _
  rw [Bool.false_bne]
  split
  · rw [ofByte_reverse]
    rfl
  · rfl

/-- Data that comes in parts leads to the same register. -/
theorem foldl_update (a : Algorithm) (r : UInt8) (parts : List Bytes) :
    parts.foldl a.update r = a.update r parts.flatten :=
  List.foldl_flatten.symm

/-- **Every check is the remainder it should be,** in whatever parts the data comes:
it is the one byte with that polynomial, and the check of all the data at once.
Reflecting the input is the same as turning every byte round and not reflecting
it. -/
theorem checksum_eq_reference (a : Algorithm) (parts : List Bytes) :
    (∀ b, b = a.finish (parts.foldl a.update a.start) ↔ ofByte b = a.reference parts.flatten) ∧
    a.finish (parts.foldl a.update a.start) = a.checksum parts.flatten ∧
    ({ a with reflectIn := true } : Algorithm).checksum parts.flatten =
      ({ a with reflectIn := false } : Algorithm).checksum (parts.flatten.map reverse) := by
  have hparts : a.finish (parts.foldl a.update a.start) = a.checksum parts.flatten := by
    rw [foldl_update, checksum]
  refine ⟨fun b => ?_, hparts, checksum_eq_straight { a with reflectIn := true } parts.flatten⟩
  rw [hparts, ← ofByte_checksum]
  exact ofByte_injective.eq_iff.symm

/-- Two published check values, without reflection and with it. -/
example : smbus.checksum (Bytes.ofText "123456789") = 0xf4 ∧
    (⟨0x31, 0x00, true, true, 0x00⟩ : Algorithm).checksum (Bytes.ofText "123456789") = 0xa1 := by
  decide +kernel

end Algorithm

end Crc8
end BootHandoff

/-
# Errors that a check cannot miss

Data with its check behind it stands for a polynomial that the divisor divides
(`dvd_iff_eq_checksum`), and an error adds a polynomial of its own to it.  So an
error is missed if and only if the divisor divides that one.  Two kinds of errors
are never missed:

| error | what the divisor needs |
| --- | --- |
| an odd number of bits | `1` as a root (`not_dvd_of_odd`) |
| bits that all lie within eight places | a constant term (`not_dvd_of_burst`) |

The first is seen at `1`, where a polynomial has the parity of its number of terms.
In the second the error is a polynomial of degree less than eight, moved up by some
places, and what has a constant term has nothing in common with a power of `X`.
-/

import BootHandoff.Proofs.Crc8.Division

namespace BootHandoff
namespace Crc8

open Polynomial

variable {g : (ZMod 2)[X]} {bits : List Bool}

/-- All the ones among these bits lie within eight places, from `first` on. -/
def InBurst (bits : List Bool) (first : Nat) : Prop :=
  ∀ i : Nat, bits[i]? = some true → first ≤ i ∧ i < first + 8

theorem ofBits_append (front back : List Bool) :
    ofBits (front ++ back) = X ^ back.length * ofBits front + ofBits back := by
  induction back using List.reverseRecOn with
  | nil => simp [ofBits]
  | append_singleton back bit ih =>
    rw [← List.append_assoc, ofBits_concat, ofBits_concat, ih, List.length_append,
      List.length_singleton]
    ring

/-- **Only bits that are all clear stand for zero.** -/
theorem ofBits_eq_zero_iff : ofBits bits = 0 ↔ ∀ bit ∈ bits, bit = false := by
  induction bits using List.reverseRecOn with
  | nil => simp [ofBits]
  | append_singleton bits bit ih =>
    rw [ofBits_concat, List.forall_mem_append, List.forall_mem_singleton, ← ih]
    constructor
    · intro h
      have hlast : bit = false := by
        have h0 := congrArg (coeff · 0) h
        cases bit
        · rfl
        · simp at h0
      subst hlast
      simpa using h
    · rintro ⟨h, rfl⟩
      simp [h]

theorem degree_ofBits_lt (bits : List Bool) : (ofBits bits).degree < bits.length := by
  induction bits using List.reverseRecOn with
  | nil => simp [ofBits]
  | append_singleton bits bit ih =>
    refine (degree_lt_iff_coeff_zero _ _).2 fun i hi => ?_
    rw [List.length_append, List.length_singleton] at hi
    obtain ⟨i, rfl⟩ := Nat.exists_eq_add_of_le' (show 1 ≤ i by omega)
    have hrest := (degree_lt_iff_coeff_zero _ _).1 ih i (by omega)
    have hlast : (if bit then 1 else 0 : (ZMod 2)[X]).coeff (i + 1) = 0 := by
      cases bit <;> simp [coeff_one]
    rw [ofBits_concat, coeff_add, coeff_X_mul, hrest, hlast, add_zero]

/-- At `1` the polynomial is the parity of the number of ones. -/
theorem eval_one_ofBits (bits : List Bool) : (ofBits bits).eval 1 = (bits.count true : ZMod 2) := by
  induction bits using List.reverseRecOn with
  | nil => simp [ofBits]
  | append_singleton bits bit ih =>
    rw [ofBits_concat, eval_add, eval_mul, eval_X, one_mul, ih, List.count_append, Nat.cast_add]
    cases bit <;> simp

/-- **A divisor with the root `1` divides no odd number of bits.** -/
theorem not_dvd_of_odd (hg : g.eval 1 = 0) (hodd : Odd (bits.count true)) : ¬g ∣ ofBits bits := by
  rintro ⟨q, hq⟩
  have hzero : ((bits.count true : Nat) : ZMod 2) = 0 := by
    rw [← eval_one_ofBits, hq, eval_mul, hg, zero_mul]
  rw [ZMod.natCast_eq_zero_iff_even] at hzero
  exact (Nat.not_even_iff_odd.2 hodd) hzero

/-- What has a constant term has nothing in common with a power of `X`. -/
theorem isCoprime_X_pow (hg : g.coeff 0 ≠ 0) (n : Nat) : IsCoprime g (X ^ n) := by
  refine IsCoprime.pow_right (IsCoprime.symm ((irreducible_X.coprime_iff_not_dvd).2 ?_))
  rwa [X_dvd_iff]

/-- Bits that are clear outside of eight places are those eight, moved up. -/
theorem InBurst.exists_ofBits_eq {first : Nat} (h : InBurst bits first) :
    ∃ n, ofBits bits = X ^ n * ofBits ((bits.drop first).take 8) := by
  have hclear : ∀ {bit : Bool} {i : Nat}, bits[i]? = some bit → ¬(first ≤ i ∧ i < first + 8) →
      bit = false := by
    intro bit i hat hout
    cases bit
    · rfl
    · exact absurd (h i hat) hout
  have hfront : ofBits (bits.take first) = 0 := by
    refine ofBits_eq_zero_iff.2 fun bit hbit => ?_
    obtain ⟨i, hi⟩ := List.mem_iff_getElem?.1 hbit
    rw [List.getElem?_take] at hi
    split at hi
    · exact hclear hi (by omega)
    · cases hi
  have hback : ofBits ((bits.drop first).drop 8) = 0 := by
    refine ofBits_eq_zero_iff.2 fun bit hbit => ?_
    obtain ⟨i, hi⟩ := List.mem_iff_getElem?.1 hbit
    rw [List.getElem?_drop, List.getElem?_drop] at hi
    exact hclear hi (by omega)
  refine ⟨((bits.drop first).drop 8).length, ?_⟩
  calc ofBits bits
      = ofBits (bits.take first ++ ((bits.drop first).take 8 ++ (bits.drop first).drop 8)) := by
        rw [List.take_append_drop, List.take_append_drop]
    _ = _ := by
        rw [ofBits_append, ofBits_append, hfront, hback, mul_zero, zero_add, add_zero]

/-- **A divisor of degree eight with a constant term divides no bits within eight
places.** -/
theorem not_dvd_of_burst (hg : g.coeff 0 ≠ 0) (hdegree : g.degree = 8) {first : Nat}
    (hburst : InBurst bits first) (hone : true ∈ bits) : ¬g ∣ ofBits bits := by
  intro hdvd
  obtain ⟨n, heq⟩ := hburst.exists_ofBits_eq
  rw [heq] at hdvd
  have hlow : g ∣ ofBits ((bits.drop first).take 8) :=
    (isCoprime_X_pow hg n).dvd_of_dvd_mul_left hdvd
  -- What is left is of a lower degree than the divisor.
  have hzero : ofBits ((bits.drop first).take 8) = 0 := by
    refine eq_zero_of_dvd_of_degree_lt hlow ?_
    rw [hdegree]
    refine (degree_ofBits_lt _).trans_le ?_
    exact_mod_cast List.length_take_le 8 _
  rw [hzero, mul_zero, ofBits_eq_zero_iff] at heq
  exact absurd (heq true hone) nofun

section Data

variable {xs ys data : Bytes}

theorem length_flatMap_msbFirst (data : Bytes) :
    (data.flatMap msbFirst).length = 8 * data.length := by
  induction data with
  | nil => rfl
  | cons b data ih =>
    rw [List.flatMap_cons, List.length_append, ih, List.length_cons, Nat.mul_succ, Nat.add_comm]
    rfl

/-- Eight bits belong to each byte, its highest one first. -/
theorem getElem?_flatMap_msbFirst (data : Bytes) (i : Nat) :
    (data.flatMap msbFirst)[i]? = data[i / 8]?.map fun b => b.toBitVec.getMsbD (i % 8) := by
  induction data generalizing i with
  | nil => rfl
  | cons b data ih =>
    have hlength : (msbFirst b).length = 8 := rfl
    rw [List.flatMap_cons]
    by_cases hi : i < 8
    · rw [List.getElem?_append_left (by omega), Nat.div_eq_of_lt hi, Nat.mod_eq_of_lt hi, msbFirst,
        List.getElem?_map, List.getElem?_range hi]
      rfl
    · obtain ⟨i, rfl⟩ := Nat.exists_eq_add_of_le' (Nat.not_lt.1 hi)
      rw [List.getElem?_append_right (by omega), hlength, Nat.add_sub_cancel, ih,
        Nat.add_div_right _ (by decide), Nat.add_mod_right, List.getElem?_cons_succ]

/-- **Bytes are added as the polynomials of all their bits.** -/
theorem ofBits_zipWith_xor (h : xs.length = ys.length) :
    ofBits ((List.zipWith (· ^^^ ·) xs ys).flatMap msbFirst) =
      ofBits (xs.flatMap msbFirst) + ofBits (ys.flatMap msbFirst) := by
  induction xs generalizing ys with
  | nil =>
    obtain rfl := List.eq_nil_of_length_eq_zero h.symm
    simp [ofBits]
  | cons x xs ih =>
    obtain _ | ⟨y, ys⟩ := ys
    · cases h
    · have hrest : xs.length = ys.length := Nat.succ.inj h
      simp only [List.zipWith_cons_cons, List.flatMap_cons, ofBits_append, ofBits_msbFirst,
        ofByte_xor, ih hrest, length_flatMap_msbFirst, List.length_zipWith, hrest, Nat.min_self]
      ring

/-- Bytes whose bits are all clear are zero. -/
theorem eq_zero_of_bits (h : ∀ bit ∈ data.flatMap msbFirst, bit = false) : ∀ b ∈ data, b = 0 := by
  intro b hb
  have hbits : ofBits (msbFirst b) = 0 :=
    ofBits_eq_zero_iff.2 fun bit hbit => h bit (List.mem_flatMap_of_mem hb hbit)
  rw [ofBits_msbFirst, ← ofByte_zero] at hbits
  exact ofByte_injective hbits

end Data

/-- The check without an initial register, reflection or a constant at the end. -/
def plain (poly : UInt8) : Algorithm := ⟨poly, 0, false, false, 0⟩

theorem ofByte_checksum_plain (poly : UInt8) (data : Bytes) :
    ofByte ((plain poly).checksum data) =
      (X ^ 8 * ofBits (data.flatMap msbFirst)) %ₘ divisor poly := by
  have hbits : (plain poly).bits = msbFirst := rfl
  have hstart : ofByte (plain poly).init = 0 := ofByte_zero
  have hend : ofByte (plain poly).xorOut = 0 := ofByte_zero
  rw [Algorithm.ofByte_checksum, Algorithm.reference, Algorithm.remainder_eq, hbits, hstart, hend,
    mul_zero, zero_add, add_zero]
  rfl

/-- **The divisor divides data with its check behind it,** and data with nothing
else there. -/
theorem dvd_iff_eq_checksum (poly : UInt8) (data : Bytes) (check : UInt8) :
    divisor poly ∣ ofBits ((data ++ [check]).flatMap msbFirst) ↔
      check = (plain poly).checksum data := by
  have hbits : ofBits ((data ++ [check]).flatMap msbFirst) =
      X ^ 8 * ofBits (data.flatMap msbFirst) + ofByte check := by
    rw [List.flatMap_append, ofBits_append, List.flatMap_singleton, ofBits_msbFirst]
    rfl
  rw [hbits, ← modByMonic_eq_zero_iff_dvd (monic_divisor poly), add_modByMonic, ofByte_modByMonic,
    ← ofByte_checksum_plain, CharTwo.add_eq_zero, ofByte_injective.eq_iff, eq_comm]

end Crc8
end BootHandoff

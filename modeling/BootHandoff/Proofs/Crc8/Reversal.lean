/-
# Reflected checks are the same checks the other way round

An algorithm that reflects its input does not turn the bytes round.  It keeps its
register and its polynomial turned round instead and shifts the other way.  Turning
the register round turns one kind of shift into the other (`reverse_shiftUp`), so
such an algorithm does to the data what the one without reflection does to the
bytes turned round (`Algorithm.checksum_eq_straight`).  `Algorithm.orient` is what
the two have in common: it turns a byte round or leaves it, as the algorithm does.
-/

import BootHandoff.Crc8

namespace BootHandoff
namespace Crc8

/-- **The bits of a byte are moved to their mirror images.** -/
theorem toBitVec_reverse (b : UInt8) : (reverse b).toBitVec = b.toBitVec.reverse := by
  obtain ⟨bits⟩ := b
  revert bits
  decide +kernel

theorem reverse_reverse (b : UInt8) : reverse (reverse b) = b := by
  apply UInt8.toBitVec_inj.1
  rw [toBitVec_reverse, toBitVec_reverse, BitVec.reverse_reverse_eq]

theorem reverse_xor (r b : UInt8) : reverse (r ^^^ b) = reverse r ^^^ reverse b := by
  apply UInt8.toBitVec_inj.1
  apply BitVec.eq_of_getLsbD_eq
  intro i hi
  simp [toBitVec_reverse, BitVec.getLsbD_reverse, BitVec.getMsbD_xor]

theorem reverse_shiftLeft_one (r : UInt8) : reverse (r <<< 1) = reverse r >>> 1 := by
  apply UInt8.toBitVec_inj.1
  apply BitVec.eq_of_getLsbD_eq
  intro i hi
  simp [toBitVec_reverse, BitVec.getLsbD_reverse, BitVec.getMsbD_shiftLeft, Nat.add_comm]

theorem shiftRight_seven (r : UInt8) : r >>> 7 = if r.toBitVec.getMsbD 0 then 1 else 0 := by
  obtain ⟨bits⟩ := r
  revert bits
  decide +kernel

theorem and_one (r : UInt8) : r &&& 1 = if r.toBitVec.getLsbD 0 then 1 else 0 := by
  obtain ⟨bits⟩ := r
  revert bits
  decide +kernel

/-- The polynomial is added if a bit leaves the register at the top. -/
theorem shiftUp_eq (poly r : UInt8) :
    shiftUp poly r = (r <<< 1) ^^^ if r.toBitVec.getMsbD 0 then poly else 0 := by
  rw [shiftUp, shiftRight_seven]
  split <;> simp

/-- The polynomial is added if a bit leaves the register at the bottom. -/
theorem shiftDown_eq (poly r : UInt8) :
    shiftDown poly r = (r >>> 1) ^^^ if r.toBitVec.getLsbD 0 then poly else 0 := by
  rw [shiftDown, and_one]
  split <;> simp

/-- **Turned round, one shift is the other.** -/
theorem reverse_shiftUp (poly r : UInt8) :
    reverse (shiftUp poly r) = shiftDown (reverse poly) (reverse r) := by
  rw [shiftUp_eq, shiftDown_eq, reverse_xor, reverse_shiftLeft_one, toBitVec_reverse r,
    BitVec.getLsbD_reverse]
  split <;> rfl

/-- What takes one step to another takes any number of them to as many. -/
theorem repeat_of_semiconj {α : Type} {f g h : α → α} (hstep : ∀ x, h (f x) = g (h x)) (n : Nat)
    (x : α) : h (Nat.repeat f n x) = Nat.repeat g n (h x) := by
  induction n with
  | zero => rfl
  | succ n ih => exact (hstep _).trans (congrArg g ih)

namespace Algorithm

/-- The algorithm without reflection of its input. -/
def straight (a : Algorithm) : Algorithm := { a with reflectIn := false }

/-- A byte turned round, if the algorithm reflects its input. -/
def orient (a : Algorithm) (b : UInt8) : UInt8 := if a.reflectIn then reverse b else b

theorem orient_xor (a : Algorithm) (r b : UInt8) :
    a.orient (r ^^^ b) = a.orient r ^^^ a.orient b := by
  unfold orient
  split
  · exact reverse_xor r b
  · rfl

theorem orient_orient (a : Algorithm) (b : UInt8) : a.orient (a.orient b) = b := by
  unfold orient
  split
  · exact reverse_reverse b
  · rfl

theorem orient_shift (a : Algorithm) (r : UInt8) :
    a.orient (a.straight.shift r) = a.shift (a.orient r) := by
  unfold orient shift
  split
  · exact reverse_shiftUp _ _
  · rfl

theorem start_eq (a : Algorithm) : a.start = a.orient a.init := rfl

theorem step_orient (a : Algorithm) (r b : UInt8) :
    a.step (a.orient r) b = a.orient (a.straight.step r (a.orient b)) := by
  unfold step
  rw [repeat_of_semiconj a.orient_shift, orient_xor, orient_orient]

/-- **The register is turned round throughout.** -/
theorem update_orient (a : Algorithm) (r : UInt8) (data : Bytes) :
    a.update (a.orient r) data = a.orient (a.straight.update r (data.map a.orient)) := by
  unfold update
  induction data generalizing r with
  | nil => rfl
  | cons b data ih => rw [List.map_cons, List.foldl_cons, List.foldl_cons, step_orient, ih]

/-- The register is turned back at the end, unless the algorithm reflects its
output. -/
theorem finish_orient (a : Algorithm) (r : UInt8) :
    a.finish (a.orient r) = a.straight.finish r := by
  have hback := reverse_reverse r
  obtain ⟨poly, init, reflectIn, reflectOut, xorOut⟩ := a
  cases reflectIn <;> cases reflectOut <;> simp [finish, orient, straight, hback]

/-- **A reflected check is the check without reflection of the bytes turned
round.** -/
theorem checksum_eq_straight (a : Algorithm) (data : Bytes) :
    a.checksum data = a.straight.checksum (data.map a.orient) := by
  unfold checksum
  rw [start_eq, update_orient, finish_orient]
  rfl

end Algorithm

end Crc8
end BootHandoff

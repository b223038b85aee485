/-
# Little-endian numbers

A number of width `w` is `w` bytes, least significant byte first.  `toLE`
writes one, dropping what does not fit, and `ofLE` reads one.  Every
fixed-layout structure of the project is built from these two.
-/

import BootHandoff.Bytes.Basic

namespace BootHandoff
namespace Bytes

/-- The `w` little-endian bytes of a number. -/
def toLE : Nat → Nat → Bytes
  | 0, _ => []
  | w + 1, v => UInt8.ofNat v :: toLE w (v / 256)

/-- The number that a byte string stands for, least significant byte first. -/
def ofLE : Bytes → Nat
  | [] => 0
  | b :: bs => b.toNat + 256 * ofLE bs

@[simp] theorem length_toLE (w v : Nat) : (toLE w v).length = w := by
  induction w generalizing v with
  | zero => rfl
  | succ w ih => rw [toLE, List.length_cons, ih]

/-- **Writing what was read gives the bytes back.** -/
theorem toLE_ofLE (bs : Bytes) : toLE bs.length (ofLE bs) = bs := by
  induction bs with
  | nil => rfl
  | cons b bs ih =>
    have hb := b.toNat_lt
    have h : (b.toNat + 256 * ofLE bs) / 256 = ofLE bs := by omega
    rw [List.length_cons, ofLE, toLE, h, ih]
    congr 1
    apply UInt8.toNat_inj.1
    rw [UInt8.toNat_ofNat']
    omega

end Bytes
end BootHandoff

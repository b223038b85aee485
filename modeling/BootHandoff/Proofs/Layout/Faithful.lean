/-
# Layouts lose nothing

Each way to build a layout keeps `Layout.Faithful`: a structure has its size in
memory, what was written is read back, and what was read is written back byte
for byte.  The layouts of the handoff's structures are faithful because those
of their fields are, and each structure's proof follows the text of its layout.
-/

import BootHandoff.Abi.EntryPoint
import BootHandoff.Abi.MonitorParams
import BootHandoff.RootKey.Header
import BootHandoff.SecureOs.BootBlock
import BootHandoff.Training.Table
import BootHandoff.Verified.Registry
import Mathlib.Algebra.Group.Nat.Defs

namespace BootHandoff
namespace Bytes

theorem ofLE_lt (bs : Bytes) : ofLE bs < 256 ^ bs.length := by
  induction bs with
  | nil => simp [ofLE]
  | cons b bs ih =>
    have := b.toNat_lt
    rw [ofLE, List.length_cons, Nat.pow_succ]
    omega

/-- **Reading what was written gives the number back**, reduced to the
width. -/
theorem ofLE_toLE (w v : Nat) : ofLE (toLE w v) = v % 256 ^ w := by
  induction w generalizing v with
  | zero => simp [toLE, ofLE, Nat.mod_one]
  | succ w ih =>
    have h : 256 ^ (w + 1) = 256 * 256 ^ w := by rw [Nat.pow_succ, Nat.mul_comm]
    rw [toLE, ofLE, ih, UInt8.toNat_ofNat', h, Nat.mod_mul]

end Bytes
namespace Layout

variable {α β : Type} {A : Layout α} {B : Layout β}

/-- A layout of a word by its little-endian bytes is faithful, whatever kind of
word it is. -/
theorem faithful_of_word {L : Layout α} {toNat : α → Nat} {ofNat : Nat → α}
    (hwrite : ∀ v, L.write v = Bytes.toLE L.size (toNat v))
    (hread : ∀ bs, L.read bs = ofNat (Bytes.ofLE (bs.take L.size)))
    (hlt : ∀ v, toNat v < 256 ^ L.size) (hof : ∀ v, ofNat (toNat v) = v)
    (hto : ∀ n, n < 256 ^ L.size → toNat (ofNat n) = n) : L.Faithful where
  length_write v := by rw [hwrite, Bytes.length_toLE]
  read_write v rest := by
    rw [hread, hwrite, List.take_left' (Bytes.length_toLE _ _), Bytes.ofLE_toLE,
      Nat.mod_eq_of_lt (hlt v), hof]
  write_read bs hbs := by
    have hlen : (bs.take L.size).length = L.size := List.length_take_of_le hbs
    have hbound : Bytes.ofLE (bs.take L.size) < 256 ^ L.size := by
      have := Bytes.ofLE_lt (bs.take L.size)
      rwa [hlen] at this
    have hback := Bytes.toLE_ofLE (bs.take L.size)
    rw [hlen] at hback
    rw [hwrite, hread, hto _ hbound, hback]

theorem faithful_u8 : u8.Faithful where
  length_write _ := rfl
  read_write _ _ := rfl
  write_read bs hbs := by
    cases bs with
    | nil => cases hbs
    | cons b bs => rfl

theorem faithful_u16 : u16.Faithful :=
  faithful_of_word (fun _ => rfl) (fun _ => rfl) UInt16.toNat_lt (fun _ => UInt16.ofNat_toNat)
    fun n (h : n < 2 ^ 16) => by rw [UInt16.toNat_ofNat', Nat.mod_eq_of_lt h]

theorem faithful_u32 : u32.Faithful :=
  faithful_of_word (fun _ => rfl) (fun _ => rfl) UInt32.toNat_lt (fun _ => UInt32.ofNat_toNat)
    fun n (h : n < 2 ^ 32) => by rw [UInt32.toNat_ofNat', Nat.mod_eq_of_lt h]

theorem faithful_u64 : u64.Faithful :=
  faithful_of_word (fun _ => rfl) (fun _ => rfl) UInt64.toNat_lt (fun _ => UInt64.ofNat_toNat)
    fun n (h : n < 2 ^ 64) => by rw [UInt64.toNat_ofNat', Nat.mod_eq_of_lt h]

theorem faithful_area (n : Nat) : (area n).Faithful where
  length_write v := v.length_bytes
  read_write v rest := by
    apply Buffer.ext
    show (v.bytes ++ rest).take n ++ (Buffer.zero n).bytes.drop (v.bytes ++ rest).length = v.bytes
    rw [List.take_left' v.length_bytes, List.drop_of_length_le, List.append_nil]
    rw [(Buffer.zero n).length_bytes, List.length_append, v.length_bytes]
    exact Nat.le_add_right _ _
  write_read bs hbs := by
    show bs.take n ++ (Buffer.zero n).bytes.drop bs.length = bs.take n
    rw [List.drop_of_length_le, List.append_nil]
    rw [(Buffer.zero n).length_bytes]
    exact hbs

theorem faithful_pair (hA : A.Faithful) (hB : B.Faithful) : (A.pair B).Faithful where
  length_write v := by
    show (A.write v.1 ++ B.write v.2).length = A.size + B.size
    rw [List.length_append, hA.length_write, hB.length_write]
  read_write v rest := by
    show (A.read (A.write v.1 ++ B.write v.2 ++ rest),
      B.read ((A.write v.1 ++ B.write v.2 ++ rest).drop A.size)) = v
    rw [List.append_assoc, hA.read_write, List.drop_left' (hA.length_write _), hB.read_write]
  write_read bs hbs := by
    have hle : A.size + B.size ≤ bs.length := hbs
    show A.write (A.read bs) ++ B.write (B.read (bs.drop A.size)) = bs.take (A.size + B.size)
    rw [hA.write_read bs (by omega), hB.write_read _ (by rw [List.length_drop]; omega),
      ← List.take_add]

theorem faithful_iso (hA : A.Faithful) {names : α → β} {parts : β → α}
    (hnames : ∀ v, names (parts v) = v) (hparts : ∀ x, parts (names x) = x) :
    (A.iso names parts).Faithful where
  length_write v := hA.length_write (parts v)
  read_write v rest := by
    show names (A.read (A.write (parts v) ++ rest)) = v
    rw [hA.read_write, hnames]
  write_read bs hbs := by
    show A.write (parts (names (A.read bs))) = bs.take A.size
    rw [hparts, hA.write_read bs hbs]

/-- The elements of a list, one behind the other, take as many bytes as they
all have. -/
theorem length_flatMap_write (hA : A.Faithful) (vs : List α) :
    (vs.flatMap A.write).length = A.size * vs.length := by
  induction vs with
  | nil => rfl
  | cons v vs ih =>
    rw [List.flatMap_cons, List.length_append, hA.length_write, ih, List.length_cons,
      Nat.mul_succ, Nat.add_comm]

/-- Every element stands at its own multiple of the size. -/
theorem read_drop_flatMap_write (hA : A.Faithful) (rest : Bytes) {vs : List α} {i : Nat} {v : α}
    (h : vs[i]? = some v) : A.read ((vs.flatMap A.write ++ rest).drop (A.size * i)) = v := by
  induction vs generalizing i with
  | nil => cases h
  | cons w vs ih =>
    rw [List.flatMap_cons, List.append_assoc]
    cases i with
    | zero =>
      obtain rfl : w = v := Option.some.inj h
      exact hA.read_write _ _
    | succ i =>
      rw [Nat.mul_succ, Nat.add_comm, ← List.drop_drop, List.drop_left' (hA.length_write _)]
      exact ih h

theorem flatMap_write_read (hA : A.Faithful) {n : Nat} {bs : Bytes} (h : A.size * n ≤ bs.length) :
    ((List.ofFn fun i : Fin n => A.read (bs.drop (A.size * i))).flatMap A.write) =
      bs.take (A.size * n) := by
  induction n generalizing bs with
  | zero => simp
  | succ n ih =>
    rw [Nat.mul_succ] at h
    have htail : A.size * n ≤ (bs.drop A.size).length := by
      rw [List.length_drop]
      omega
    have hstep : ∀ i : Fin n, bs.drop (A.size * i.succ) = (bs.drop A.size).drop (A.size * i) := by
      intro i
      rw [List.drop_drop, Fin.val_succ, Nat.mul_succ, Nat.add_comm]
    simp only [List.ofFn_succ, List.flatMap_cons, hstep, ih htail]
    rw [Fin.val_zero, Nat.mul_zero, List.drop_zero, hA.write_read bs (by omega), Nat.mul_succ,
      Nat.add_comm, ← List.take_add]

theorem faithful_array (hA : A.Faithful) (n : Nat) : (A.array n).Faithful where
  length_write v := by
    show (v.toList.flatMap A.write).length = A.size * n
    rw [length_flatMap_write hA, Vector.length_toList]
  read_write v rest := by
    apply Vector.ext
    intro i hi
    show (Vector.ofFn fun i : Fin n =>
      A.read ((v.toList.flatMap A.write ++ rest).drop (A.size * i)))[i] = v[i]
    rw [Vector.getElem_ofFn]
    exact read_drop_flatMap_write hA rest (by simp [hi])
  write_read bs hbs := by
    show (Vector.ofFn fun i : Fin n => A.read (bs.drop (A.size * i))).toList.flatMap A.write = _
    rw [Vector.toList_ofFn]
    exact flatMap_write_read hA hbs

end Layout

open Layout

theorem Abi.ParamHeader.faithful_layout : ParamHeader.layout.Faithful :=
  faithful_iso (faithful_pair faithful_u8 (faithful_pair faithful_u8
    (faithful_pair faithful_u16 faithful_u32))) (fun _ => rfl) fun _ => rfl

theorem Abi.ArgRegs.faithful_layout : ArgRegs.layout.Faithful := by
  unfold layout
  refine faithful_iso ?_ (fun _ => rfl) fun _ => rfl
  iterate 7 refine faithful_pair faithful_u64 ?_
  exact faithful_u64

theorem Abi.EntryPoint.faithful_layout : EntryPoint.layout.Faithful :=
  faithful_iso (faithful_pair ParamHeader.faithful_layout (faithful_pair faithful_u64
    (faithful_pair faithful_u32 (faithful_pair faithful_u32 ArgRegs.faithful_layout))))
    (fun _ => rfl) fun _ => rfl

theorem Abi.MonitorParams.faithful_layout : MonitorParams.layout.Faithful := by
  unfold layout
  refine faithful_iso (faithful_pair ParamHeader.faithful_layout ?_) (fun _ => rfl) fun _ => rfl
  iterate 4 refine faithful_pair faithful_u64 ?_
  exact faithful_u64

theorem SecureOs.BootBlock.faithful_layout : BootBlock.layout.Faithful := by
  unfold layout
  refine faithful_iso (faithful_pair faithful_u32 (faithful_pair faithful_u32
    (faithful_pair (faithful_array faithful_u32 4) ?_))) (fun _ => rfl) fun _ => rfl
  iterate 7 refine faithful_pair faithful_u64 ?_
  exact faithful_pair faithful_u8 (faithful_pair (faithful_area 3) (faithful_pair faithful_u32
    (faithful_pair (faithful_area 4096) (faithful_pair faithful_u32
    (faithful_pair (faithful_area 2048) (faithful_area 4))))))

theorem Verified.Component.faithful_layout : Component.layout.Faithful :=
  faithful_iso (faithful_pair faithful_u32 faithful_u32) (fun _ => rfl) fun _ => rfl

theorem Verified.Record.faithful_layout : Record.layout.Faithful :=
  faithful_iso (faithful_pair faithful_u32 (faithful_pair faithful_u32 (faithful_pair faithful_u32
    (faithful_array Component.faithful_layout 6)))) (fun _ => rfl) fun _ => rfl

theorem RootKey.Extent.faithful_layout : Extent.layout.Faithful :=
  faithful_iso (faithful_pair faithful_u32 faithful_u32) (fun _ => rfl) fun _ => rfl

theorem RootKey.Header.faithful_layout : Header.layout.Faithful := by
  unfold layout
  refine faithful_iso (faithful_pair (faithful_area 4) (faithful_pair faithful_u16
    (faithful_pair faithful_u16 (faithful_pair faithful_u32 (faithful_pair faithful_u32 ?_)))))
    (fun _ => rfl) fun _ => rfl
  iterate 4 refine faithful_pair Extent.faithful_layout ?_
  exact faithful_pair (faithful_area 32) (faithful_area 48)

theorem Training.RangeRecord.faithful_layout : RangeRecord.layout.Faithful :=
  faithful_iso (faithful_pair faithful_u32 (faithful_pair faithful_u32 (faithful_pair faithful_u64
    (faithful_pair faithful_u32 faithful_u32)))) (fun _ => rfl) fun _ => rfl

end BootHandoff

/-
# The id of a chip as a number

Read as one number of 128 bits, its low word first, the id of a chip is the sum
of what is burned into its fuses, each times a power of two.

| fuse | lowest bit of the id | bits |
| --- | ---: | ---: |
| reserved for operations | 0 | 6 |
| y coordinate | 6 | 9 |
| x coordinate | 15 | 9 |
| wafer | 24 | 6 |
| lot code, low word | 30 | 28 |
| lot code, high word | 58 | 32 |
| fab code | 90 | 6 |
| vendor code | 96 | 4 |

A piece is laid over an id by a bitwise or, which is no sum.  It adds to the
number all the same when the id has nothing at or above the piece's lowest bit
(`Piece.Fits.exists_place`), and a layout whose pieces stand one above the other
(`Stacked`) keeps it so from piece to piece.  The chip's own layout is stacked.
Its two lot codes are cut where a word ends, which the sum does not show.
-/

import BootHandoff.Proofs.ChipId.Packing
import BootHandoff.Proofs.ChipId.Restoring
import Mathlib.Algebra.GroupWithZero.Nat

namespace BootHandoff
namespace ChipId

open Platform

section Numbers

/-- The id as a number, its low word first. -/
def number (uid : Uid) : Nat :=
  uid[0].toNat + uid[1].toNat * 2 ^ 32 + uid[2].toNat * 2 ^ 64 + uid[3].toNat * 2 ^ 96

theorem number_zero : number (Vector.replicate 4 0) = 0 := rfl

/-- Another word changes the number by what it is more or less than the old
one. -/
theorem number_set (uid : Uid) {word : Nat} (h : word < 4) (value : UInt32) :
    number (uid.set word value) + uid[word].toNat * 2 ^ (32 * word) =
      number uid + value.toNat * 2 ^ (32 * word) := by
  obtain rfl | rfl | rfl | rfl : word = 0 ∨ word = 1 ∨ word = 2 ∨ word = 3 := by omega
  all_goals
    simp only [number, Vector.getElem_set, reduceCtorEq, Nat.reduceEqDiff, if_true, if_false]
    omega

theorem word_mul_le_number (uid : Uid) {word : Nat} (h : word < 4) :
    uid[word].toNat * 2 ^ (32 * word) ≤ number uid := by
  have hset := number_set uid h 0
  rw [UInt32.toNat_zero, Nat.zero_mul, Nat.add_zero] at hset
  exact Nat.le.intro (Nat.add_comm _ _ ▸ hset)

/-- Every word can be read off the number. -/
theorem toNat_word (uid : Uid) {word : Nat} (h : word < 4) :
    uid[word].toNat = number uid / 2 ^ (32 * word) % 2 ^ 32 := by
  have h₀ := uid[0].toNat_lt
  have h₁ := uid[1].toNat_lt
  have h₂ := uid[2].toNat_lt
  have h₃ := uid[3].toNat_lt
  unfold number
  obtain rfl | rfl | rfl | rfl : word = 0 ∨ word = 1 ∨ word = 2 ∨ word = 3 := by omega
  all_goals omega

/-- **Ids with one number are the same.** -/
theorem number_injective : Function.Injective number := fun uid uid' h =>
  Vector.ext fun word hlt => UInt32.toNat.inj (by rw [toNat_word uid hlt, toNat_word uid' hlt, h])

end Numbers

section Pieces

variable {fuses : Fuses} {layout : List Piece} {uid : Uid}

/-- The lowest bit of the id that a piece takes. -/
def Piece.bottom (p : Piece) : Nat := 32 * p.word + p.destShift.toNat

/-- The bits of its fuse that a piece takes, as a number. -/
def Piece.amount (fuses : Fuses) (p : Piece) : Nat :=
  (fuses.value p.source).toNat / 2 ^ p.sourceShift.toNat % 2 ^ p.width.toNat

theorem toNat_lowBits {width : UInt32} (h : width.toNat ≤ 32) :
    (lowBits width).toNat = 2 ^ width.toNat - 1 := by
  unfold lowBits
  split
  · rename_i hlt
    have hwidth : width.toNat < 32 := UInt32.lt_iff_toNat_lt.1 hlt
    have hpow : 2 ^ width.toNat < 2 ^ 32 := Nat.pow_lt_pow_right (by decide) hwidth
    have hbit : ((1 : UInt32) <<< width).toNat = 2 ^ width.toNat := by
      rw [UInt32.toNat_shiftLeft, Nat.mod_eq_of_lt hwidth, UInt32.toNat_one, Nat.one_shiftLeft,
        Nat.mod_eq_of_lt hpow]
    rw [UInt32.toNat_sub_of_le _ _ (UInt32.le_iff_toNat_le.2 (hbit ▸ Nat.two_pow_pos _)), hbit]
    rfl
  · rename_i hge
    have hwidth : width.toNat = 32 :=
      Nat.le_antisymm h (Nat.not_lt.1 fun hlt => hge (UInt32.lt_iff_toNat_lt.2 hlt))
    rw [hwidth]
    rfl

/-- What a piece adds to the number of an id. -/
def Piece.worth (fuses : Fuses) (p : Piece) : Nat := p.amount fuses * 2 ^ p.bottom

/-- A piece that does not leave its word lays its bits over it whole. -/
theorem Piece.Fits.toNat_cut {p : Piece} (h : p.Fits)
    (hwidth : p.destShift.toNat + p.width.toNat ≤ 32) :
    (p.cut fuses).toNat = p.amount fuses * 2 ^ p.destShift.toNat := by
  have hlt : p.amount fuses * 2 ^ p.destShift.toNat < 2 ^ 32 :=
    calc p.amount fuses * 2 ^ p.destShift.toNat
        < 2 ^ p.width.toNat * 2 ^ p.destShift.toNat :=
          Nat.mul_lt_mul_of_pos_right (Nat.mod_lt _ (Nat.two_pow_pos _)) (Nat.two_pow_pos _)
      _ = 2 ^ (p.destShift.toNat + p.width.toNat) := by rw [← Nat.pow_add, Nat.add_comm]
      _ ≤ 2 ^ 32 := Nat.pow_le_pow_right (by decide) hwidth
  have hsource : p.sourceShift.toNat < 32 := UInt32.lt_iff_toNat_lt.1 h.source
  have hdest : p.destShift.toNat < 32 := UInt32.lt_iff_toNat_lt.1 h.dest
  unfold cut
  rw [UInt32.toNat_shiftLeft, UInt32.toNat_and, UInt32.toNat_shiftRight,
    toNat_lowBits (Nat.le_trans (Nat.le_add_left _ _) hwidth), Nat.and_two_pow_sub_one_eq_mod,
    Nat.mod_eq_of_lt hsource, Nat.mod_eq_of_lt hdest, Nat.shiftRight_eq_div_pow,
    Nat.shiftLeft_eq]
  exact Nat.mod_eq_of_lt hlt

/-- Bits laid over a word that has none so high add to it. -/
theorem toNat_or_of_lt {word placed : UInt32} {low amount : Nat}
    (hplaced : placed.toNat = amount * 2 ^ low) (hword : word.toNat < 2 ^ low) :
    (word ||| placed).toNat = word.toNat + placed.toNat := by
  rw [UInt32.toNat_or, hplaced, Nat.or_comm, Nat.mul_comm,
    ← Nat.two_pow_add_eq_or_of_lt hword, Nat.add_comm]

/-- **Laying a piece over an id that ends below it adds the piece's bits.** -/
theorem Piece.Fits.exists_place {p : Piece} (hp : p.Fits)
    (hwidth : p.destShift.toNat + p.width.toNat ≤ 32) (huid : number uid < 2 ^ p.bottom) :
    ∃ placed, p.place fuses uid = .ok placed ∧
      number placed = number uid + p.worth fuses ∧
      number placed < 2 ^ (p.bottom + p.width.toNat) := by
  have hcut : (p.cut fuses).toNat = p.amount fuses * 2 ^ p.destShift.toNat := hp.toNat_cut hwidth
  have hword := hp.word
  have hlow : uid[p.word].toNat < 2 ^ p.destShift.toNat := by
    have hle := Nat.lt_of_le_of_lt (word_mul_le_number uid hword) huid
    rw [Piece.bottom, Nat.pow_add, Nat.mul_comm] at hle
    exact Nat.lt_of_mul_lt_mul_left hle
  have hnumber : number (uid.set p.word (uid[p.word] ||| p.cut fuses)) =
      number uid + p.worth fuses := by
    have hnew := number_set uid hword (uid[p.word] ||| p.cut fuses)
    rw [toNat_or_of_lt hcut hlow, hcut, Nat.add_mul, Nat.mul_assoc, ← Nat.pow_add,
      Nat.add_comm p.destShift.toNat] at hnew
    unfold worth bottom
    omega
  refine ⟨_, hp.place_eq_ok hword fuses uid, hnumber, ?_⟩
  have hamount : p.amount fuses + 1 ≤ 2 ^ p.width.toNat := Nat.mod_lt _ (Nat.two_pow_pos _)
  calc number (uid.set p.word (uid[p.word] ||| p.cut fuses))
      < 2 ^ p.bottom + p.worth fuses := by omega
    _ = (p.amount fuses + 1) * 2 ^ p.bottom := by rw [worth, Nat.succ_mul, Nat.add_comm]
    _ ≤ 2 ^ p.width.toNat * 2 ^ p.bottom := Nat.mul_le_mul_right _ hamount
    _ = 2 ^ (p.bottom + p.width.toNat) := by rw [← Nat.pow_add, Nat.add_comm]

/-- The pieces fit, none leaves its word, and they stand one above the other
from a bit of the id on. -/
def Stacked : Nat → List Piece → Prop
  | _, [] => True
  | floor, p :: rest =>
    p.Fits ∧ p.destShift.toNat + p.width.toNat ≤ 32 ∧ floor ≤ p.bottom ∧
      Stacked (p.bottom + p.width.toNat) rest

instance decidableStacked : (floor : Nat) → (layout : List Piece) → Decidable (Stacked floor layout)
  | _, [] => inferInstanceAs (Decidable True)
  | _, p :: rest =>
    have := decidableStacked (p.bottom + p.width.toNat) rest
    inferInstanceAs (Decidable (_ ∧ _ ∧ _ ∧ _))

/-- **A stacked layout makes an id that is the sum of its pieces.** -/
theorem exists_foldlM_place {floor : Nat} (h : Stacked floor layout) (fuses : Fuses) (uid : Uid)
    (huid : number uid < 2 ^ floor) :
    ∃ packed, layout.foldlM (Piece.place fuses) uid = .ok packed ∧
      number packed = number uid + (layout.map (Piece.worth fuses)).sum := by
  induction layout generalizing floor uid with
  | nil => exact ⟨uid, rfl, (Nat.add_zero _).symm⟩
  | cons p rest ih =>
    obtain ⟨hp, hwidth, hfloor, hrest⟩ := h
    have hbelow : number uid < 2 ^ p.bottom :=
      Nat.lt_of_lt_of_le huid (Nat.pow_le_pow_right (by decide) hfloor)
    obtain ⟨placed, hplace, hnumber, hlt⟩ := hp.exists_place hwidth hbelow
    obtain ⟨packed, hpacked, hsum⟩ := ih hrest placed hlt
    refine ⟨packed, ?_, ?_⟩
    · rw [List.foldlM_cons, hplace]
      exact hpacked
    · rw [hsum, hnumber, List.map_cons, List.sum_cons, Nat.add_assoc]

theorem stacked_pieces : Stacked 0 pieces := by decide

end Pieces

section Chip

/-- The number of bits of a fuse that count. -/
def Fuse.width : Fuse → Nat
  | vendorCode => 4
  | fabCode => 6
  | lotCode0 => 32
  | lotCode1 => 28
  | waferId => 6
  | xCoord => 9
  | yCoord => 9
  | opsReserved => 6

/-- The lowest bit of the id that a fuse takes. -/
def Fuse.bottom : Fuse → Nat
  | vendorCode => 96
  | fabCode => 90
  | lotCode0 => 58
  | lotCode1 => 30
  | waferId => 24
  | xCoord => 15
  | yCoord => 6
  | opsReserved => 0

/-- What a register file holds of a fuse, less the bits that do not count. -/
def burned (file : RegisterFile) (f : Fuse) : Nat :=
  (file (fuseBlock + f.register.offset)).toNat % 2 ^ f.width

variable {answers : (q : Query) → q.Answer} {file : RegisterFile}

theorem burned_lt (file : RegisterFile) (f : Fuse) : burned file f < 2 ^ f.width :=
  Nat.mod_lt _ (Nat.two_pow_pos _)

/-- The mask of a fuse keeps the bits that count. -/
theorem Fuse.toNat_mask (f : Fuse) : f.register.mask.toNat = 2 ^ f.width - 1 := by
  cases f <;> rfl

/-- No fuse is read where the clock controller lies. -/
theorem Fuse.address_ne_clockMisc (f : Fuse) : fuseBlock + f.register.offset ≠ clockMisc := by
  cases f <;> decide

theorem value_readAll (file : RegisterFile) (f : Fuse) :
    ((readAll.run (steady answers) file).value.value f) =
      file (fuseBlock + f.register.offset) &&& f.register.mask := by
  cases f <;> rfl

/-- **The fuses that are read are the ones burned**, whether or not they were
visible before. -/
theorem toNat_value_readFuses (f : Fuse) :
    ((readFuses.run (steady answers) file).value.value f).toNat = burned file f := by
  have hmasked : ∀ other : RegisterFile,
      other (fuseBlock + f.register.offset) = file (fuseBlock + f.register.offset) →
      ((readAll.run (steady answers) other).value.value f).toNat = burned file f := by
    intro other hother
    rw [value_readAll, hother, UInt32.toNat_and, f.toNat_mask, Nat.and_two_pow_sub_one_eq_mod]
    rfl
  unfold readFuses
  rw [Firmware.run_bind]
  show (((if (file clockMisc >>> visibleShift) &&& 1 = 1 then readAll else _).run
    (steady answers) file).value.value f).toNat = _
  split
  · exact hmasked file rfl
  · simp only [Firmware.run_bind, Firmware.run_pure]
    rw [state_setVisibility]
    exact hmasked _ (Function.update_of_ne f.address_ne_clockMisc _ _)

/-- A number cut in two, each part at its place. -/
theorem cut_add_rest {n : Nat} (low high place : Nat) (h : n < 2 ^ (low + high)) :
    n % 2 ^ low * 2 ^ place + n / 2 ^ low % 2 ^ high * 2 ^ (place + low) = n * 2 ^ place := by
  have hhigh : n / 2 ^ low < 2 ^ high := Nat.div_lt_of_lt_mul (Nat.pow_add 2 low high ▸ h)
  calc n % 2 ^ low * 2 ^ place + n / 2 ^ low % 2 ^ high * 2 ^ (place + low)
      = (n % 2 ^ low + 2 ^ low * (n / 2 ^ low)) * 2 ^ place := by
        rw [Nat.mod_eq_of_lt hhigh, Nat.pow_add, Nat.add_mul, Nat.mul_comm (2 ^ place),
          ← Nat.mul_assoc, Nat.mul_comm (2 ^ low)]
    _ = n * 2 ^ place := by rw [Nat.mod_add_div]

/-- A piece that takes the low bits of a fuse. -/
theorem Piece.worth_low {fuses : Fuses} (word : Nat) (f : Fuse) (dest width : UInt32) :
    Piece.worth fuses ⟨word, f, 0, dest, width⟩ =
      (fuses.value f).toNat % 2 ^ width.toNat * 2 ^ (32 * word + dest.toNat) := by
  show (fuses.value f).toNat / 2 ^ 0 % 2 ^ width.toNat * 2 ^ (32 * word + dest.toNat) = _
  rw [Nat.pow_zero, Nat.div_one]

theorem sum_map_pieces (g : Piece → Nat) :
    (pieces.map g).sum =
      g ⟨0, .opsReserved, 0, 0, 6⟩ + g ⟨0, .yCoord, 0, 6, 9⟩ + g ⟨0, .xCoord, 0, 15, 9⟩ +
        g ⟨0, .waferId, 0, 24, 6⟩ + (g ⟨0, .lotCode1, 0, 30, 2⟩ + g ⟨1, .lotCode1, 2, 0, 26⟩) +
        (g ⟨1, .lotCode0, 0, 26, 6⟩ + g ⟨2, .lotCode0, 6, 0, 26⟩) + g ⟨2, .fabCode, 0, 26, 6⟩ +
        g ⟨3, .vendorCode, 0, 0, 4⟩ := by
  simp only [pieces, List.map_cons, List.map_nil, List.sum_cons, List.sum_nil, Nat.add_zero,
    Nat.add_assoc]

/-- What all pieces of the chip's id add, the lot codes each in one. -/
theorem sum_pieces {fuses : Fuses} (h : ∀ f, (fuses.value f).toNat < 2 ^ f.width) :
    (pieces.map (Piece.worth fuses)).sum =
      (fuses.value .opsReserved).toNat + (fuses.value .yCoord).toNat * 2 ^ 6 +
        (fuses.value .xCoord).toNat * 2 ^ 15 + (fuses.value .waferId).toNat * 2 ^ 24 +
        (fuses.value .lotCode1).toNat * 2 ^ 30 + (fuses.value .lotCode0).toNat * 2 ^ 58 +
        (fuses.value .fabCode).toNat * 2 ^ 90 + (fuses.value .vendorCode).toNat * 2 ^ 96 := by
  have hwhole : ∀ (word : Nat) (f : Fuse) (dest width : UInt32) (bottom : Nat),
      width.toNat = f.width → 32 * word + dest.toNat = bottom →
      Piece.worth fuses ⟨word, f, 0, dest, width⟩ = (fuses.value f).toNat * 2 ^ bottom := by
    rintro word f dest width _ hwidth rfl
    rw [Piece.worth_low, hwidth, Nat.mod_eq_of_lt (h f)]
  have hlot₁ : Piece.worth fuses ⟨0, .lotCode1, 0, 30, 2⟩ +
      Piece.worth fuses ⟨1, .lotCode1, 2, 0, 26⟩ = (fuses.value .lotCode1).toNat * 2 ^ 30 := by
    rw [Piece.worth_low]
    exact cut_add_rest 2 26 30 (h .lotCode1)
  have hlot₀ : Piece.worth fuses ⟨1, .lotCode0, 0, 26, 6⟩ +
      Piece.worth fuses ⟨2, .lotCode0, 6, 0, 26⟩ = (fuses.value .lotCode0).toNat * 2 ^ 58 := by
    rw [Piece.worth_low]
    exact cut_add_rest 6 26 58 (h .lotCode0)
  rw [sum_map_pieces, hlot₁, hlot₀, hwhole 0 .opsReserved 0 6 0 rfl rfl,
    hwhole 0 .yCoord 6 9 6 rfl rfl, hwhole 0 .xCoord 15 9 15 rfl rfl,
    hwhole 0 .waferId 24 6 24 rfl rfl, hwhole 2 .fabCode 26 6 90 rfl rfl,
    hwhole 3 .vendorCode 0 4 96 rfl rfl, Nat.pow_zero, Nat.mul_one]

theorem value_readUid {σ ε : Type} (m : Machine σ) (u : σ) :
    ((readUid : Task ε Uid).run.run m u).value =
      (pack (readFuses.run m u).value pieces).mapError .halt := by
  have hpath := Firmware.path_run m (readUid : Task ε Uid).run u
  have hanswers := Firmware.answers_run m (readUid : Task ε Uid).run u
  obtain ⟨first, rest, fuses, hsteps, hfuses, hpack⟩ := Task.path_lift_bind_iff.1 hpath
  rw [hsteps, Machine.answers_append] at hanswers
  rw [(Task.path_check_iff.1 hpack).2, Firmware.run_eq_of_path hfuses hanswers.1]

/-- The number that the fuses of a chip make. -/
def burnedNumber (file : RegisterFile) : Nat :=
  burned file .opsReserved + burned file .yCoord * 2 ^ 6 + burned file .xCoord * 2 ^ 15 +
    burned file .waferId * 2 ^ 24 + burned file .lotCode1 * 2 ^ 30 +
    burned file .lotCode0 * 2 ^ 58 + burned file .fabCode * 2 ^ 90 +
    burned file .vendorCode * 2 ^ 96

/-- The id that is read is the sum of what is burned, each at its place. -/
theorem exists_readUid (ε : Type) (answers : (q : Query) → q.Answer) (file : RegisterFile) :
    ∃ uid, ((readUid : Task ε Uid).run.run (steady answers) file).value = .ok uid ∧
      number uid = burnedNumber file := by
  have hfuses : ∀ f, ((readFuses.run (steady answers) file).value.value f).toNat = burned file f :=
    toNat_value_readFuses
  obtain ⟨uid, hpack, hnumber⟩ := exists_foldlM_place stacked_pieces
    (readFuses.run (steady answers) file).value (Vector.replicate 4 0)
    (number_zero ▸ Nat.two_pow_pos 0)
  refine ⟨uid, ?_, ?_⟩
  · rw [value_readUid]
    exact congrArg _ hpack
  · rw [hnumber, number_zero, Nat.zero_add, sum_pieces fun f => hfuses f ▸ burned_lt file f]
    simp only [hfuses]
    rfl

/-- Every fuse has its bits of that number to itself. -/
theorem burned_eq_div_mod (file : RegisterFile) (f : Fuse) :
    burned file f = burnedNumber file / 2 ^ f.bottom % 2 ^ f.width := by
  have hops := burned_lt file .opsReserved
  have hy := burned_lt file .yCoord
  have hx := burned_lt file .xCoord
  have hwafer := burned_lt file .waferId
  have hlot₁ := burned_lt file .lotCode1
  have hlot₀ := burned_lt file .lotCode0
  have hfab := burned_lt file .fabCode
  have hvendor := burned_lt file .vendorCode
  simp only [Fuse.width] at hops hy hx hwafer hlot₁ hlot₀ hfab hvendor
  unfold burnedNumber
  cases f
  all_goals
    simp only [Fuse.bottom, Fuse.width]
    omega

/-- **The id that is read is a faithful name of what is burned.**  Whatever the
registers hold, an id is read.  As a number it is the sum of what is burned into
the eight fuses, each at its place.  So what is burned into a fuse can be taken
from it, and another chip has the same id exactly if the same is burned into
each of its fuses: no other bit of any register plays a part. -/
theorem readUid_faithful {ε : Type} (answers : (q : Query) → q.Answer) (file : RegisterFile) :
    ∃ uid, ((readUid : Task ε Uid).run.run (steady answers) file).value = .ok uid ∧
      number uid = burnedNumber file ∧
      (∀ f, burned file f = number uid / 2 ^ f.bottom % 2 ^ f.width) ∧
      ∀ (answers' : (q : Query) → q.Answer) (file' : RegisterFile),
        ((readUid : Task ε Uid).run.run (steady answers') file').value = .ok uid ↔
          ∀ f, burned file' f = burned file f := by
  obtain ⟨uid, huid, hnumber⟩ := exists_readUid ε answers file
  refine ⟨uid, huid, hnumber, fun f => hnumber ▸ burned_eq_div_mod file f,
    fun answers' file' => ?_⟩
  obtain ⟨uid', huid', hnumber'⟩ := exists_readUid ε answers' file'
  rw [huid', Except.ok.injEq]
  constructor
  · rintro rfl f
    rw [burned_eq_div_mod file' f, burned_eq_div_mod file f, ← hnumber, ← hnumber']
  · intro hburned
    refine number_injective ?_
    rw [hnumber, hnumber']
    simp only [burnedNumber, hburned]

end Chip

end ChipId
end BootHandoff

/-
# Texts that spell bytes

`Spells` is the format of the encrypted key store in the product data: every
byte is two digits, its higher half first.  A text spells at most one byte
string, it spells one exactly if it has even length and consists of digits, and
decoding finds it (`decode_eq_ok_iff`).
-/

import BootHandoff.KeyStore.Digits
import Mathlib.Data.List.Induction

namespace BootHandoff
namespace KeyStore

/-- A text is these bytes, each in two hexadecimal digits of either case, the
higher half first. -/
inductive Spells : Bytes → Bytes → Prop where
  | nil : Spells [] []
  | cons {hi lo h l b : UInt8} {text bytes : Bytes} (hhi : digit? hi = some h)
      (hlo : digit? lo = some l) (hbyte : b.toNat = 16 * h.toNat + l.toNat)
      (hrest : Spells text bytes) : Spells (hi :: lo :: text) (b :: bytes)

/-- A value of the product data from which a key store of at most `n` bytes can
be decoded: not too long, of even length, and of digits only. -/
def Valid (n : Nat) (text : Bytes) : Prop :=
  text.length ≤ 2 * n ∧ text.length % 2 = 0 ∧ ∀ b ∈ text, (digit? b).isSome

theorem Spells.length_eq {text bytes : Bytes} (h : Spells text bytes) :
    text.length = 2 * bytes.length := by
  induction h with
  | nil => rfl
  | cons _ _ _ _ ih =>
    simp only [List.length_cons]
    omega

/-- Two digits make a byte without a carry. -/
theorem toNat_of_digits {hi lo h l : UInt8} (hhi : digit? hi = some h) (hlo : digit? lo = some l) :
    (16 * h + l).toNat = 16 * h.toNat + l.toNat := by
  have hlt := digit?_lt hhi
  have llt := digit?_lt hlo
  rw [UInt8.toNat_add, UInt8.toNat_mul]
  simp only [UInt8.reduceToNat]
  omega

theorem readDigit_eq_ok_iff {b d : UInt8} {position : Nat} :
    readDigit b position = .ok d ↔ digit? b = some d := by
  unfold readDigit
  cases digit? b with
  | none => exact ⟨nofun, nofun⟩
  | some d' =>
    rw [Option.some.injEq]
    exact ⟨Except.ok.inj, congrArg _⟩

/-- Two digits at the front give the first byte, and the rest gives the
rest. -/
theorem decodeFrom_cons_eq_ok_iff {hi lo : UInt8} {rest bytes : Bytes} {position : Nat} :
    decodeFrom position (hi :: lo :: rest) = .ok bytes ↔
      ∃ h l tail, digit? hi = some h ∧ digit? lo = some l ∧
        decodeFrom (position + 2) rest = .ok tail ∧ bytes = (16 * h + l) :: tail := by
  rw [decodeFrom]
  constructor
  · intro hdecode
    cases hhi : readDigit hi position with
    | error e =>
      rw [hhi] at hdecode
      cases hdecode
    | ok h =>
      cases hlo : readDigit lo (position + 1) with
      | error e =>
        rw [hhi, hlo] at hdecode
        cases hdecode
      | ok l =>
        cases htail : decodeFrom (position + 2) rest with
        | error e =>
          rw [hhi, hlo, htail] at hdecode
          cases hdecode
        | ok tail =>
          rw [hhi, hlo, htail] at hdecode
          obtain rfl := Except.ok.inj hdecode
          exact ⟨h, l, tail, readDigit_eq_ok_iff.1 hhi, readDigit_eq_ok_iff.1 hlo, rfl, rfl⟩
  · rintro ⟨h, l, tail, hhi, hlo, htail, rfl⟩
    rw [readDigit_eq_ok_iff.2 hhi, readDigit_eq_ok_iff.2 hlo, htail]
    rfl

theorem decodeFrom_eq_ok_iff {text bytes : Bytes} {position : Nat} (heven : text.length % 2 = 0) :
    decodeFrom position text = .ok bytes ↔ Spells text bytes := by
  induction text using List.twoStepInduction generalizing position bytes with
  | nil =>
    constructor
    · intro h
      obtain rfl := Except.ok.inj h
      exact .nil
    · rintro ⟨⟩
      rfl
  | singleton b => simp at heven
  | cons_cons hi lo rest ih _ =>
    have hrest : rest.length % 2 = 0 := by
      simp only [List.length_cons] at heven
      omega
    rw [decodeFrom_cons_eq_ok_iff]
    constructor
    · rintro ⟨h, l, tail, hhi, hlo, htail, rfl⟩
      exact .cons hhi hlo (toNat_of_digits hhi hlo) ((ih hrest).1 htail)
    · rintro (_ | ⟨hhi, hlo, hbyte, htail⟩)
      rename_i h l b tail
      have hb : b = 16 * h + l := UInt8.toNat_inj.1 (hbyte.trans (toNat_of_digits hhi hlo).symm)
      exact ⟨h, l, tail, hhi, hlo, (ih hrest).2 htail, by rw [hb]⟩

/-- **Decoding finds the bytes that a text spells,** and nothing else. -/
theorem decode_eq_ok_iff {text bytes : Bytes} : decode text = .ok bytes ↔ Spells text bytes := by
  unfold decode
  split
  · rename_i hodd
    constructor
    · nofun
    · intro h
      have := h.length_eq
      omega
  · rename_i heven
    exact decodeFrom_eq_ok_iff (by omega)

theorem Spells.unique {text bytes bytes' : Bytes} (h : Spells text bytes)
    (h' : Spells text bytes') : bytes = bytes' :=
  Except.ok.inj ((decode_eq_ok_iff.2 h).symm.trans (decode_eq_ok_iff.2 h'))

/-- A text spells bytes if its length is even and each of its bytes a digit. -/
theorem exists_spells {text : Bytes} (heven : text.length % 2 = 0)
    (hdigits : ∀ b ∈ text, (digit? b).isSome) : ∃ bytes, Spells text bytes := by
  induction text using List.twoStepInduction with
  | nil => exact ⟨[], .nil⟩
  | singleton b => simp at heven
  | cons_cons hi lo rest ih _ =>
    obtain ⟨h, hhi⟩ := Option.isSome_iff_exists.1 (hdigits hi (by simp))
    obtain ⟨l, hlo⟩ := Option.isSome_iff_exists.1 (hdigits lo (by simp))
    have hrest : rest.length % 2 = 0 := by
      simp only [List.length_cons] at heven
      omega
    obtain ⟨tail, htail⟩ := ih hrest fun b hb => hdigits b (by simp [hb])
    exact ⟨(16 * h + l) :: tail, .cons hhi hlo (toNat_of_digits hhi hlo) htail⟩

theorem Spells.isSome_of_mem {text bytes : Bytes} (h : Spells text bytes) {b : UInt8}
    (hb : b ∈ text) : (digit? b).isSome := by
  induction h with
  | nil => cases hb
  | cons hhi hlo _ _ ih =>
    rcases List.mem_cons.1 hb with rfl | hb
    · rw [hhi]
      rfl
    rcases List.mem_cons.1 hb with rfl | hb
    · rw [hlo]
      rfl
    · exact ih hb

/-- **The valid values are those that spell a key store with room for it.** -/
theorem valid_iff {n : Nat} {text : Bytes} :
    Valid n text ↔ text.length ≤ 2 * n ∧ ∃ bytes, Spells text bytes := by
  constructor
  · rintro ⟨hle, heven, hdigits⟩
    exact ⟨hle, exists_spells heven hdigits⟩
  · rintro ⟨hle, bytes, hspells⟩
    have hlength := hspells.length_eq
    exact ⟨hle, by omega, fun b hb => hspells.isSome_of_mem hb⟩

/-- Both cases of the letters are digits. -/
example : Spells (Bytes.ofText "00fFA5") [0x00, 0xff, 0xa5] := decode_eq_ok_iff.1 rfl

end KeyStore
end BootHandoff

/-
# Bytes written in hexadecimal digits

Two digits of either case make a byte, the higher half first.  A text of odd
length is refused before any digit is looked at; otherwise the first byte that
is no digit is named with its place.

A `Decoder` works in place, on an area that it is lent, and has then already
written what stands before that byte (`decodeOver`).
-/

import BootHandoff.Bytes.Basic
import BootHandoff.Text.Quoted

namespace BootHandoff
namespace KeyStore

/-- Why a text is not bytes in hexadecimal. -/
inductive DigitError where
  | oddLength
  /-- A byte that is no digit, and its place. -/
  | badDigit (byte : UInt8) (position : Nat)
  deriving DecidableEq, Repr

def DigitError.message : DigitError → String
  | .oddLength => "Odd number of digits"
  | .badDigit byte position => s!"Invalid character {Text.quoted byte} at position {position}"

/-- The number that a digit stands for. -/
def digit? (b : UInt8) : Option UInt8 :=
  if 0x30 ≤ b ∧ b ≤ 0x39 then some (b - 0x30)
  else if 0x41 ≤ b ∧ b ≤ 0x46 then some (b - 0x37)
  else if 0x61 ≤ b ∧ b ≤ 0x66 then some (b - 0x57)
  else none

theorem digit?_lt {b d : UInt8} (h : digit? b = some d) : d.toNat < 16 := by
  unfold digit? at h
  simp only [UInt8.le_iff_toNat_le] at h
  split at h
  · obtain rfl := Option.some.inj h
    rw [UInt8.toNat_sub_of_le _ _ (UInt8.le_iff_toNat_le.2 (by omega))]
    simp at *
    omega
  split at h
  · obtain rfl := Option.some.inj h
    rw [UInt8.toNat_sub_of_le _ _ (UInt8.le_iff_toNat_le.2 (by simp at *; omega))]
    simp at *
    omega
  split at h
  · obtain rfl := Option.some.inj h
    rw [UInt8.toNat_sub_of_le _ _ (UInt8.le_iff_toNat_le.2 (by simp at *; omega))]
    simp at *
    omega
  · simp at h

/-- The number of the digit at a place. -/
def readDigit (b : UInt8) (position : Nat) : Except DigitError UInt8 :=
  match digit? b with
  | some d => .ok d
  | none => .error (.badDigit b position)

/-- The bytes of the digits from a place on; a last digit without a partner is
left out. -/
def decodeFrom (position : Nat) : Bytes → Except DigitError Bytes
  | hi :: lo :: rest => do
    let h ← readDigit hi position
    let l ← readDigit lo (position + 1)
    return (16 * h + l) :: (← decodeFrom (position + 2) rest)
  | _ => .ok []

/-- The bytes that a text of digits stands for. -/
def decode (text : Bytes) : Except DigitError Bytes :=
  if text.length % 2 = 1 then .error .oddLength else decodeFrom 0 text

/-- The bytes of the digits that a text starts with. -/
def leading : Bytes → Bytes
  | hi :: lo :: rest =>
    match digit? hi, digit? lo with
    | some h, some l => (16 * h + l) :: leading rest
    | _, _ => []
  | _ => []

/-- Code that decodes a text over an area with room for just its bytes.  The
answer is whether it could, and what the area holds now. -/
abbrev Decoder : Type :=
  (text : Bytes) → Buffer (text.length / 2) → Except DigitError Unit × Buffer (text.length / 2)

/-- Decodes a text over an area, byte by byte. -/
def decodeOver : Decoder := fun text area =>
  match decode text with
  | .ok bytes => (.ok (), area.overwrite bytes)
  | .error .oddLength => (.error .oddLength, area)
  | .error e => (.error e, area.overwrite (leading text))

end KeyStore
end BootHandoff

/-
# Numbers in hexadecimal

Messages write addresses and sizes in lowercase hexadecimal behind `0x`, some
of them filled up with zeros to a fixed number of digits.  Byte strings are written
two digits a byte, with nothing in front.
-/

import BootHandoff.Bytes.Basic

namespace BootHandoff
namespace Text

/-- `n` in lowercase hexadecimal, with zeros in front up to `width` digits. -/
def hexDigits (width n : Nat) : String :=
  let digits := Nat.toDigits 16 n
  String.ofList (List.replicate (width - digits.length) '0' ++ digits)

/-- `n` behind `0x`, with as many digits as it needs. -/
def hex (n : Nat) : String := "0x" ++ hexDigits 1 n

/-- `n` behind `0x`, with at least `width` digits. -/
def hexPadded (width n : Nat) : String := "0x" ++ hexDigits width n

/-- A byte string, two digits a byte. -/
def hexBytes (bs : Bytes) : String := String.join (bs.map fun b => hexDigits 2 b.toNat)

end Text
end BootHandoff

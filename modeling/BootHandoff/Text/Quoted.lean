/-
# A byte shown as a quoted character

A message that complains about one byte shows it as the character with that
code point, between single quotes.  Characters that would not be seen, or
that would be read as the end of the quotation, are escaped:

| byte | shown as |
| --- | --- |
| `00`, `09`, `0a`, `0d` | a backslash and `0`, `t`, `n`, `r` |
| the quote and the backslash | themselves behind a backslash |
| `00`-`1f`, `7f`-`a0`, `ad` | their number in hexadecimal, braced, behind a backslash and `u` |
| any other | itself |
-/

import BootHandoff.Text.Hex

namespace BootHandoff
namespace Text

/-- Whether a byte, as a character, has no picture of its own: the control
characters, the no-break space and the soft hyphen. -/
def isInvisible (b : UInt8) : Bool :=
  b < 0x20 || (0x7f ≤ b && b ≤ 0xa0) || b == 0xad

/-- The character of a byte as it stands between quotes. -/
def escape (b : UInt8) : String :=
  if b == 0x00 then "\\0"
  else if b == 0x09 then "\\t"
  else if b == 0x0a then "\\n"
  else if b == 0x0d then "\\r"
  else if b == 0x27 then "\\'"
  else if b == 0x5c then "\\\\"
  else if isInvisible b then "\\u\x7b" ++ hexDigits 1 b.toNat ++ "\x7d"
  else String.singleton (Char.ofNat b.toNat)

/-- The character of a byte between quotes. -/
def quoted (b : UInt8) : String := "'" ++ escape b ++ "'"

end Text
end BootHandoff

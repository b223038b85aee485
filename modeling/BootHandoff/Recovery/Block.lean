/-
# The non-volatile block

Sixteen bytes survive a reboot.  Byte 2 is the reason for which the next boot
goes to recovery, the last byte is a check of all the others, and the rest
belongs to others and is kept as it is.
-/

import BootHandoff.Crc8

namespace BootHandoff
namespace Recovery

/-- The block that survives a reboot. -/
abbrev NvBlock := Buffer 16

namespace NvBlock

/-- The check of the bytes in front of the last. -/
def crc (b : NvBlock) : UInt8 := Crc8.smbus.checksum (b.bytes.take 15)

/-- Whether the last byte is the check of the others. -/
def isValid (b : NvBlock) : Bool := b.get 15 == crc b

/-- The block with the check of its other bytes. -/
def sealed (b : NvBlock) : NvBlock := Buffer.set b 15 (crc b)

/-- The block with another reason for recovery. -/
def withReason (b : NvBlock) (reason : UInt8) : NvBlock := sealed (Buffer.set b 2 reason)

end NvBlock
end Recovery
end BootHandoff

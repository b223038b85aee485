/-
# The boot block of the secure OS

The Trusted Little Kernel, the secure OS of some boards, finds a block through
its third argument register.  The block has the chip's id, the memory layout in
MiB, and two secrets: the root key, and the encrypted key store from the product
data.  A secret that is not to be had has size zero.

| bytes | field |
| --- | --- |
| 0-3, 4-7 | version of the block, console UART |
| 8-23 | chip id |
| 24-39 | memory below 4 GiB: base, size |
| 40-55 | memory above 4 GiB: base, size |
| 56-71 | carveout of the security controller: base, size |
| 72-79 | device tree, always zero |
| 80 | whether the device is unlocked |
| 81-83 | padding |
| 84-87, 88-4183 | root key: size, bytes |
| 4184-4187, 4188-6235 | encrypted key store: size, bytes |
| 6236-6239 | padding |
-/

import BootHandoff.ChipId.Pack

namespace BootHandoff
namespace SecureOs

/-- The block that the secure OS finds through its third argument. -/
structure BootBlock where
  version : UInt32
  uart : UInt32
  chipId : ChipId.Uid
  primaryBase : UInt64
  primarySize : UInt64
  extendedBase : UInt64
  extendedSize : UInt64
  tsecBase : UInt64
  tsecSize : UInt64
  deviceTree : UInt64
  unlocked : UInt8
  padding₀ : Buffer 3
  rootKeySize : UInt32
  rootKey : Buffer 4096
  keyStoreSize : UInt32
  keyStore : Buffer 2048
  padding₁ : Buffer 4
  deriving DecidableEq, Inhabited

namespace BootBlock

/-- How the block lies in memory. -/
def layout : Layout BootBlock :=
  let u32 := Layout.u32
  let u64 := Layout.u64
  (u32.pair (u32.pair ((u32.array 4).pair (u64.pair (u64.pair (u64.pair (u64.pair (u64.pair
    (u64.pair (u64.pair (Layout.u8.pair ((Layout.area 3).pair (u32.pair ((Layout.area 4096).pair
      (u32.pair ((Layout.area 2048).pair (Layout.area 4))))))))))))))))).iso
    (fun (version, uart, chipId, primaryBase, primarySize, extendedBase, extendedSize, tsecBase,
        tsecSize, deviceTree, unlocked, padding₀, rootKeySize, rootKey, keyStoreSize, keyStore,
        padding₁) =>
      ⟨version, uart, chipId, primaryBase, primarySize, extendedBase, extendedSize, tsecBase,
        tsecSize, deviceTree, unlocked, padding₀, rootKeySize, rootKey, keyStoreSize, keyStore,
        padding₁⟩)
    (fun b => (b.version, b.uart, b.chipId, b.primaryBase, b.primarySize, b.extendedBase,
      b.extendedSize, b.tsecBase, b.tsecSize, b.deviceTree, b.unlocked, b.padding₀, b.rootKeySize,
      b.rootKey, b.keyStoreSize, b.keyStore, b.padding₁))

/-- The block with every bit clear. -/
def zero : BootBlock where
  version := 0
  uart := 0
  chipId := Vector.replicate 4 0
  primaryBase := 0
  primarySize := 0
  extendedBase := 0
  extendedSize := 0
  tsecBase := 0
  tsecSize := 0
  deviceTree := 0
  unlocked := 0
  padding₀ := Buffer.zero 3
  rootKeySize := 0
  rootKey := Buffer.zero 4096
  keyStoreSize := 0
  keyStore := Buffer.zero 2048
  padding₁ := Buffer.zero 4

end BootBlock
end SecureOs
end BootHandoff

/-
# The saved program status

The word from which the processor takes its state when it returns from an
exception into an image: which exceptions stay masked, at which level and with
which stack pointer the image runs, and whether it is a 32-bit image.

| bits | meaning |
| --- | --- |
| 0 | the level's own stack pointer |
| 2-3 | exception level |
| 4 | return into 32-bit state |
| 6, 7, 8, 9 | fast interrupts, interrupts, system errors, debug exceptions masked |
-/

namespace BootHandoff
namespace Abi

/-- A saved program status word. -/
structure SavedStatus where
  bits : UInt32
  deriving DecidableEq, Repr, Inhabited

namespace SavedStatus

/-- The image uses the stack pointer of its own level. -/
def ownStack : SavedStatus := ⟨0x1⟩

/-- The bits that hold the exception level. -/
def levelMask : SavedStatus := ⟨0xc⟩

/-- The image is a 32-bit one. -/
def return32 : SavedStatus := ⟨0x10⟩

/-- Fast interrupts are masked. -/
def fastInterrupts : SavedStatus := ⟨0x40⟩

/-- Interrupts are masked. -/
def interrupts : SavedStatus := ⟨0x80⟩

/-- System errors are masked. -/
def systemErrors : SavedStatus := ⟨0x100⟩

/-- Debug exceptions are masked. -/
def debugExceptions : SavedStatus := ⟨0x200⟩

instance : OrOp SavedStatus := ⟨fun s t => ⟨s.bits ||| t.bits⟩⟩
instance : AndOp SavedStatus := ⟨fun s t => ⟨s.bits &&& t.bits⟩⟩

/-- Every exception is masked. -/
def exceptionsMasked : SavedStatus :=
  fastInterrupts ||| interrupts ||| systemErrors ||| debugExceptions

/-- All bits that have a meaning here. -/
def known : SavedStatus := ownStack ||| levelMask ||| return32 ||| exceptionsMasked

/-- The mode bits for a return to exception level `level`, of which the low
two bits count, on the common stack pointer. -/
def returnTo (level : UInt32) : SavedStatus := ⟨(level &&& 3) <<< 2⟩

/-- Whether every bit of `t` is set in `s`. -/
def contains (s t : SavedStatus) : Bool := s &&& t == t

/-- The status with these bits, if each of them has a meaning. -/
def ofBits? (bits : UInt32) : Option SavedStatus :=
  if known.contains ⟨bits⟩ then some ⟨bits⟩ else none

/-- The status with those of these bits that have a meaning. -/
def ofKnownBits (bits : UInt32) : SavedStatus := ⟨bits⟩ &&& known

end SavedStatus
end Abi
end BootHandoff

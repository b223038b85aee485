/-
# The errors that several stages of the handoff share

Three classes of failure meet here.  Fatal ones end up as a `BootError` and
halt the boot.  Missing secrets are not errors of the boot at all: they are
logged and become fields of size zero.  A poll that runs out of time is left
to its caller to classify.

Each kind of error names a cause.  Its `label` is one word for the cause, led by
the label of the kind of error it wraps, and its `message` is the text that
logs and halts show.
-/

import BootHandoff.Text.Hex

namespace BootHandoff

/-- Failures that the boot flash reports. -/
inductive FlashError where
  /-- The flash could not be opened. -/
  | unopened
  /-- The container holds no file of that name. -/
  | notFound
  /-- The flash cannot be mapped there. -/
  | invalidMap (offset len : UInt32)
  /-- An image was found but did not load. -/
  | loadFailed
  deriving DecidableEq, Repr

def FlashError.label : FlashError → String
  | .unopened => "Open"
  | .notFound => "NotFound"
  | .invalidMap .. => "InvalidMap"
  | .loadFailed => "Load"

def FlashError.message : FlashError → String
  | .unopened => "media could not be opened"
  | .notFound => "file not found in container"
  | .invalidMap offset len =>
    "invalid map of " ++ Text.hex len.toNat ++ " bytes at " ++ Text.hex offset.toNat
  | .loadFailed => "stage load failed"

/-- Failures to find or copy the image of a stage. -/
inductive LoadError where
  /-- No image of that name loads from the container. -/
  | notFound (name : String)
  /-- The image must be a verified one, and none is. -/
  | verificationRequired (name : String)
  /-- The flash delivered another number of bytes than the image has. -/
  | shortRead (expected actual : UInt64)
  deriving DecidableEq, Repr

def LoadError.label : LoadError → String
  | .notFound _ => "NotFound"
  | .verificationRequired _ => "VerificationRequired"
  | .shortRead .. => "ShortRead"

def LoadError.message : LoadError → String
  | .notFound name => name ++ " not found"
  | .verificationRequired name => name ++ " must come from a verified component"
  | .shortRead expected actual => s!"read {actual.toNat} of {expected.toNat} bytes"

/-- Failures of the drivers for memory geometry and memory access. -/
inductive DriverError where
  | memoryRange
  | carveout (number : UInt32)
  | window (base len : UInt64)
  deriving DecidableEq, Repr

def DriverError.label : DriverError → String
  | .memoryRange => "MemoryRange"
  | .carveout _ => "Carveout"
  | .window .. => "Window"

def DriverError.message : DriverError → String
  | .memoryRange => "memory range unavailable"
  | .carveout number => s!"carveout {number.toNat} unavailable"
  | .window base len =>
    "physical window " ++ Text.hex base.toNat ++ "+" ++ Text.hex len.toNat ++ " is not addressable"

/-- A bounded poll ran out of its time, in microseconds. -/
structure Timeout where
  micros : UInt64
  deriving DecidableEq, Repr

def Timeout.message (t : Timeout) : String := s!"timed out after {t.micros.toNat} us"

/-- Anything that stops the handoff. -/
inductive BootError where
  | load (e : LoadError)
  | driver (e : DriverError)
  /-- The secure OS, with its length, does not fit in the trusted carveout. -/
  | secureOsTooLarge (len : UInt64)
  | timeout (t : Timeout)
  deriving DecidableEq, Repr

def BootError.label : BootError → String
  | .load e => "Load." ++ e.label
  | .driver e => "Driver." ++ e.label
  | .secureOsTooLarge _ => "Bl32TooLarge"
  | .timeout _ => "Timeout"

def BootError.message : BootError → String
  | .load e => e.message
  | .driver e => e.message
  | .secureOsTooLarge len =>
    "BL32 of " ++ Text.hex len.toNat ++ " bytes does not fit in the TZ carveout"
  | .timeout t => t.message

end BootHandoff

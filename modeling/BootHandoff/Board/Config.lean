/-
# The boot configuration of a board

Most of what tells boards apart is data: which images there are, where they
are found, how much of the trusted carveout the secure monitor gets.  A
configuration is fixed when the board is built; nothing in it is read from
anywhere at boot.
-/

namespace BootHandoff
namespace Board

/-- What to do when an image cannot be had from the verified registry. -/
inductive Fallback where
  /-- Load it from the container by name, unverified. -/
  | container
  /-- Give up: the image must be a verified one. -/
  | forbidden
  deriving DecidableEq, Repr, Inhabited

/-- How to find the image of a stage. -/
structure StageSpec where
  /-- Its slot in the registry of verified components. -/
  index : UInt8
  /-- Its name in the container. -/
  name : String
  fallback : Fallback
  deriving DecidableEq, Repr, Inhabited

/-- How the secure OS gets into memory. -/
inductive SecureOsLoad where
  /-- Copied byte for byte into the trusted carveout, right behind the space
  of the secure monitor. -/
  | raw
  /-- Loaded like any other stage. -/
  | stage
  deriving DecidableEq, Repr, Inhabited

/-- The secure OS of a board. -/
structure SecureOsConfig where
  stage : StageSpec
  load : SecureOsLoad
  deriving DecidableEq, Repr, Inhabited

/-- The memory training code of a board. -/
structure TrainingConfig where
  stage : StageSpec
  /-- The address the code is copied to and run from. -/
  loadAddress : UInt64
  /-- The space reserved there. -/
  maxSize : UInt64
  deriving DecidableEq, Repr, Inhabited

/-- The UART that serves as the console, numbered as the secure OS expects. -/
inductive Uart where
  | none
  | a
  | b
  | c
  | d
  | e
  deriving DecidableEq, Repr, Inhabited

namespace Uart

/-- The number under which the secure OS knows a UART. -/
def number : Uart → UInt32
  | none => 0
  | a => 1
  | b => 2
  | c => 3
  | d => 4
  | e => 5

/-- The name of a UART. -/
def name : Uart → String
  | none => "None"
  | a => "A"
  | b => "B"
  | c => "C"
  | d => "D"
  | e => "E"

/-- Every UART, in the order of the numbers. -/
def all : List Uart := [none, a, b, c, d, e]

/-- The UART with a given number. -/
def ofNumber? (n : Int) : Option Uart := all.find? fun u => (u.number.toNat : Int) == n

end Uart

/-- What a board boots, and from where. -/
structure BootConfig where
  /-- Whether a verifying stage ran and left its registry. -/
  verifiedBoot : Bool
  /-- The secure monitor. -/
  monitor : StageSpec
  secureOs : Option SecureOsConfig
  /-- The space for the secure monitor at the bottom of the trusted carveout,
  in MiB. -/
  monitorSizeMib : UInt64
  uart : Uart
  training : Option TrainingConfig
  deriving DecidableEq, Repr, Inhabited

end Board
end BootHandoff

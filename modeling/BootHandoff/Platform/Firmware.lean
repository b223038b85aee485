/-
# Boot code as a tree of queries

A `Firmware` program is either done with a value, or asks the platform a
query and goes on with each possible answer.  The tree fixes everything the
boot code decides and nothing the platform does, so a statement about all
platforms is a statement about all paths through the tree.

`Machine` is a platform with a state of its own, and `Firmware.run` plays a
program on it.  `run_bind` is the law that makes runs composable: a program
followed by another runs as the two runs one after the other.
-/

import BootHandoff.Platform.Query

namespace BootHandoff
namespace Platform

/-- A program of the boot code with a result of type `α`. -/
inductive Firmware (α : Type) : Type where
  | done (a : α)
  | ask (q : Query) (next : q.Answer → Firmware α)

namespace Firmware

/-- Goes on with the result of a program. -/
def bind {α β : Type} : Firmware α → (α → Firmware β) → Firmware β
  | .done a, f => f a
  | .ask q next, f => .ask q fun answer => (next answer).bind f

instance : Monad Firmware where
  pure := .done
  bind := .bind

@[simp] theorem done_bind {α β : Type} (a : α) (f : α → Firmware β) :
    (Firmware.done a >>= f) = f a := rfl

@[simp] theorem ask_bind {α β : Type} (q : Query) (next : q.Answer → Firmware α)
    (f : α → Firmware β) : (Firmware.ask q next >>= f) = .ask q fun a => next a >>= f := rfl

theorem bind_done {α : Type} (x : Firmware α) : x >>= .done = x := by
  induction x with
  | done a => rfl
  | ask q next ih => exact congrArg (Firmware.ask q) (funext ih)

theorem bind_assoc {α β γ : Type} (x : Firmware α) (f : α → Firmware β) (g : β → Firmware γ) :
    x >>= f >>= g = x >>= fun a => f a >>= g := by
  induction x with
  | done a => rfl
  | ask q next ih => exact congrArg (Firmware.ask q) (funext ih)

instance : LawfulMonad Firmware :=
  LawfulMonad.mk' Firmware (fun x => bind_done x) (fun _ _ => rfl) bind_assoc

/-- The program that asks one query and returns the answer. -/
def query (q : Query) : Firmware q.Answer := .ask q .done

def openFlash : Firmware (Except FlashError Unit) := query .openFlash
def closeFlash : Firmware Unit := query .closeFlash
def findArea (name : String) : Firmware (Option Flash.Region) := query (.findArea name)
def locateFile (name : String) : Firmware (Except FlashError Flash.Region) :=
  query (.locateFile name)
def loadStage (name : String) : Firmware (Except FlashError UInt64) := query (.loadStage name)
def loadStageAt (offset : UInt32) : Firmware (Except FlashError UInt64) :=
  query (.loadStageAt offset)
def mapFlash (offset len : UInt32) : Firmware (Except FlashError Bytes) :=
  query (.mapFlash offset len)
def readFlash {n : Nat} (offset : UInt32) (area : Buffer n) : Firmware (UInt64 × Buffer n) :=
  query (.readFlash offset n area)
def readRegister (address : UInt64) : Firmware UInt32 := query (.readRegister address)
def writeRegister (address : UInt64) (value : UInt32) : Firmware Unit :=
  query (.writeRegister address value)
def memoryBelow4G : Firmware (Except DriverError Memory.MibRange) := query .memoryBelow4G
def memoryAbove4G : Firmware (Except DriverError (Option Memory.MibRange)) := query .memoryAbove4G
def carveout (which : Memory.Carveout) : Firmware (Except DriverError Memory.MibRange) :=
  query (.carveout which)
def developerMode : Firmware Bool := query .developerMode
def window (base len : UInt64) : Firmware (Except DriverError Bytes) := query (.window base len)
def store (base : UInt64) (bytes : Bytes) : Firmware Unit := query (.store base bytes)
def productData (key : String) : Firmware (Option Bytes) := query (.productData key)
def disableMmu : Firmware Unit := query .disableMmu
def enterMonitor (entry params platformParams : UInt64) (memory : List Block) : Firmware Unit :=
  query (.enterMonitor entry params platformParams memory)
def train (entry : UInt64) : Firmware (UInt64 × UInt64) := query (.train entry)
def adjustSecureOs (config : Board.BootConfig) (entry : Abi.EntryPoint) :
    Firmware (Except BootError Unit × Abi.EntryPoint) := query (.adjustSecureOs config entry)
def extendMonitorParams (params : Abi.MonitorParams) :
    Firmware (Option UInt64 × Abi.MonitorParams) := query (.extendMonitorParams params)
def now : Firmware UInt64 := query .now
def readNonVolatile : Firmware (Buffer 16) := query .readNonVolatile
def saveNonVolatile (block : Buffer 16) : Firmware Unit := query (.saveNonVolatile block)
def log (level : Level) (text : String) : Firmware Unit := query (.log level text)

/-- Writes the structure `v`, which lies at `address`, out of the data
cache. -/
def clean {α : Type} (L : Layout α) (address : UInt64) (v : α) : Firmware Unit :=
  query (.clean ⟨address, L.write v⟩)

/-- Reads a register and writes it back changed.  Nothing else runs in
between. -/
def modifyRegister (address : UInt64) (f : UInt32 → UInt32) : Firmware Unit := do
  writeRegister address (f (← readRegister address))

/-- Writes bytes over the front of a window, as far as it goes, and returns what
the window held before. -/
def overwriteWindow (base len : UInt64) (bytes : Bytes) : Firmware (Except DriverError Bytes) := do
  let held ← window base len
  if held.isOk then store base (bytes.take len.toNat)
  return held

end Firmware

/-- A query together with the answer it got. -/
structure Step where
  query : Query
  answer : query.Answer

/-- A platform with a state of type `σ`. -/
structure Machine (σ : Type) where
  /-- What the platform answers in a state, and the state it is in then. -/
  respond : (q : Query) → σ → q.Answer × σ

/-- What a run leaves: the program's value, the platform's state, and what was
asked and answered on the way. -/
structure Outcome (σ α : Type) where
  value : α
  state : σ
  steps : List Step

namespace Firmware

/-- Plays a program on a platform. -/
def run {σ α : Type} (m : Machine σ) : Firmware α → σ → Outcome σ α
  | .done a, s => ⟨a, s, []⟩
  | .ask q next, s =>
    let reply := m.respond q s
    let rest := (next reply.1).run m reply.2
    ⟨rest.value, rest.state, ⟨q, reply.1⟩ :: rest.steps⟩

@[simp] theorem run_done {σ α : Type} (m : Machine σ) (a : α) (s : σ) :
    (Firmware.done a).run m s = ⟨a, s, []⟩ := rfl

@[simp] theorem run_pure {σ α : Type} (m : Machine σ) (a : α) (s : σ) :
    (pure a : Firmware α).run m s = ⟨a, s, []⟩ := rfl

theorem run_ask {σ α : Type} (m : Machine σ) (q : Query) (next : q.Answer → Firmware α) (s : σ) :
    (Firmware.ask q next).run m s =
      ⟨((next (m.respond q s).1).run m (m.respond q s).2).value,
        ((next (m.respond q s).1).run m (m.respond q s).2).state,
        ⟨q, (m.respond q s).1⟩ :: ((next (m.respond q s).1).run m (m.respond q s).2).steps⟩ := rfl

@[simp] theorem run_query {σ : Type} (m : Machine σ) (q : Query) (s : σ) :
    (query q).run m s = ⟨(m.respond q s).1, (m.respond q s).2, [⟨q, (m.respond q s).1⟩]⟩ := rfl

/-- **Runs compose:** one program and then another is the first run followed by
the second, from the state that the first one left. -/
theorem run_bind {σ α β : Type} (m : Machine σ) (x : Firmware α) (f : α → Firmware β) (s : σ) :
    (x >>= f).run m s =
      ⟨((f (x.run m s).value).run m (x.run m s).state).value,
        ((f (x.run m s).value).run m (x.run m s).state).state,
        (x.run m s).steps ++ ((f (x.run m s).value).run m (x.run m s).state).steps⟩ := by
  induction x generalizing s with
  | done a => rfl
  | ask q next ih =>
    simp only [ask_bind, run_ask, ih, List.cons_append]

end Firmware
end Platform
end BootHandoff

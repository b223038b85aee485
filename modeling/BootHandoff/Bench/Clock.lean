/-
# Clocks on the bench

A `StepClock` reads its time and then moves on by a fixed step, as long as the
time stays a 64-bit word.  A `ScriptedClock` first reads given times and then
moves on by a step from the last of them, round the 64-bit words.
-/

import BootHandoff.Outcome
import BootHandoff.Word

namespace BootHandoff
namespace Bench

/-- A clock that moves by a step whenever it is read. -/
structure StepClock where
  now : UInt64
  step : UInt64
  deriving DecidableEq, Repr, Inhabited

/-- Reads the clock.  A clock that cannot move on does not move. -/
def StepClock.read : ExceptT Halt (StateM StepClock) UInt64 := do
  let c ← get
  match Word.add64? c.now c.step with
  | some next =>
    set { c with now := next }
    return c.now
  | none => throw .overflow

/-- A clock that reads given times first. -/
structure ScriptedClock where
  /-- The times still to be read. -/
  times : List UInt64
  /-- The time read last. -/
  last : UInt64
  step : UInt64
  /-- How often it was read. -/
  reads : Nat
  deriving DecidableEq, Repr, Inhabited

namespace ScriptedClock

/-- A clock that was not read yet. -/
def new (times : List UInt64) (step : UInt64) : ScriptedClock := ⟨times, 0, step, 0⟩

/-- The clock after a reading; the reading is its `last`. -/
def advance (c : ScriptedClock) : ScriptedClock :=
  match c.times with
  | t :: rest => { c with times := rest, last := t, reads := c.reads + 1 }
  | [] => { c with last := c.last + c.step, reads := c.reads + 1 }

/-- Reads the clock. -/
def read {m : Type → Type} [Monad m] [MonadStateOf ScriptedClock m] : m UInt64 := do
  modify advance
  return (← get).last

end ScriptedClock

/-- A source of given values, of which the last repeats. -/
structure Script (α : Type) where
  values : List α
  /-- How often a value was taken. -/
  taken : Nat
  deriving Repr, Inhabited

/-- The next value, or `rest` if there are none at all. -/
def Script.next {α : Type} (rest : α) (s : Script α) : α × Script α :=
  match s.values with
  | [] => (rest, { s with taken := s.taken + 1 })
  | [v] => (v, { s with taken := s.taken + 1 })
  | v :: more => (v, ⟨more, s.taken + 1⟩)

/-- Takes the next value, or `rest` if there are none at all. -/
def Script.take {α : Type} {m : Type → Type} [Monad m] [MonadStateOf (Script α) m] (rest : α) :
    m α :=
  modifyGet (Script.next rest)

end Bench
end BootHandoff

/-
# Stopwatches

A stopwatch remembers when it was started.  What has passed since is the
difference to the clock's reading now, modulo `2 ^ 64`, so a clock that wraps
round in the meantime does no harm.  The clock is any action that yields its
reading.
-/

namespace BootHandoff
namespace Wait

/-- A stopwatch with its timeout, in microseconds. -/
structure Stopwatch where
  start : UInt64
  timeout : UInt64
  deriving DecidableEq, Repr, Inhabited

namespace Stopwatch

variable {m : Type → Type} [Monad m]

/-- Starts a stopwatch. -/
def begin (now : m UInt64) (timeout : UInt64) : m Stopwatch :=
  return ⟨← now, timeout⟩

/-- The time since the stopwatch was started. -/
def elapsed (w : Stopwatch) (now : m UInt64) : m UInt64 :=
  return (← now) - w.start

/-- Whether the timeout has passed. -/
def expired (w : Stopwatch) (now : m UInt64) : m Bool :=
  return w.timeout ≤ (← w.elapsed now)

end Stopwatch
end Wait
end BootHandoff

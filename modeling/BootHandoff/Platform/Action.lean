/-
# Boot code that can end early

Most boot code can end in an error or a halt besides a value, and much of it
works on something it was lent: a key buffer, a parameter block, the state of
the handoff.

* `Task ε α` is boot code that ends with a value, an error of kind `ε` or a
  halt.
* `Action σ ε α` also works on a value of type `σ`.  Whatever it did to that
  value stands however it ends, like everything it asked of the platform.

`attempt` turns an error, but never a halt, into a value that the caller looks
at; `focus` lets code for a part work on the part in its place in the whole.
-/

import BootHandoff.Outcome
import BootHandoff.Platform.Firmware

namespace BootHandoff
namespace Platform

/-- Boot code that ends with a value, an error or a halt. -/
abbrev Task (ε : Type) : Type → Type := ExceptT (Stop ε) Firmware

/-- Boot code that also works on a value of type `σ`, which keeps what was
done to it however the code ends. -/
abbrev Action (σ ε : Type) : Type → Type := ExceptT (Stop ε) (StateT σ Firmware)

/-- The same task, its errors seen as of a wider kind. -/
def Task.widen {ε ε' α : Type} (wrap : ε → ε') (t : Task ε α) : Task ε' α := ExceptT.mk do
  match ← t.run with
  | .ok a => return .ok a
  | .error stop => return .error (stop.map wrap)

namespace Action

variable {σ τ ε ε' α : Type}

/-- A task is a step of an action that does not touch what the action works
on. -/
instance : MonadLift (Task ε) (Action σ ε) := ⟨fun t => ExceptT.mk (liftM t.run)⟩

/-- Runs an action on a value; the answer has its end and the value then. -/
def on (x : Action σ ε α) (s : σ) : Firmware (Except (Stop ε) α × σ) := x.run.run s

/-- Runs an action for a part of the whole in its place. -/
def focus (get : σ → τ) (put : τ → σ → σ) (x : Action τ ε α) : Action σ ε α :=
  ExceptT.mk fun s => do
    let (result, t) ← x.on (get s)
    return (result, put t s)

/-- Runs an action whose error the caller will look at.  A halt goes
through. -/
def attempt (x : Action σ ε α) : Action σ ε' (Except ε α) := ExceptT.mk fun s => do
  match ← x.on s with
  | (.ok a, s) => return (.ok (.ok a), s)
  | (.error (.error e), s) => return (.ok (.error e), s)
  | (.error (.halt h), s) => return (.error (.halt h), s)

end Action
end Platform
end BootHandoff

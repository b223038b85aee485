/-
# How a piece of boot code can end

Boot code ends with a value, with an *error* that its caller may deal with, or
with a *halt*: the point past which nothing is trusted to make progress.  A
halt is not an error of another kind.  No caller can turn it into a value, and
what was done before it stays done.

| halt | arises when |
| --- | --- |
| `overflow` | a sum, product, difference or shift does not fit its word |
| `indexOutOfBounds` | an index or a range lies outside its area |
| `assertionFailed` | a stated condition does not hold |
| `lengthMismatch` | two areas to be copied differ in size |
| `died` | the code gives up with a message of its own |
-/

namespace BootHandoff

/-- Why the boot stopped for good. -/
inductive Halt where
  | overflow
  | indexOutOfBounds
  | assertionFailed
  | lengthMismatch
  | died (text : String)
  deriving DecidableEq, Repr

/-- The words under which a halt is reported. -/
def Halt.message : Halt → String
  | .overflow => "arithmetic overflow"
  | .indexOutOfBounds => "index out of bounds"
  | .assertionFailed => "assertion failed"
  | .lengthMismatch => "length mismatch"
  | .died text => text

/-- An end without a value: an error of kind `ε`, or a halt. -/
inductive Stop (ε : Type) where
  | error (e : ε)
  | halt (h : Halt)
  deriving DecidableEq, Repr

namespace Stop

/-- The same end, its error seen as one of a wider kind. -/
def map {ε ε' : Type} (wrap : ε → ε') : Stop ε → Stop ε'
  | .error e => .error (wrap e)
  | .halt h => .halt h

@[simp] theorem map_error {ε ε' : Type} (wrap : ε → ε') (e : ε) :
    (Stop.error e).map wrap = .error (wrap e) := rfl

@[simp] theorem map_halt {ε ε' : Type} (wrap : ε → ε') (h : Halt) :
    (Stop.halt h).map wrap = .halt h := rfl

end Stop

section Ends

variable {m : Type → Type} [Monad m] {ε ε' α : Type} [MonadExcept (Stop ε) m]

/-- Ends with an error. -/
def fail (e : ε) : m α := throw (Stop.error e)

/-- Ends with a halt. -/
def halt (h : Halt) : m α := throw (Stop.halt h : Stop ε)

/-- Goes on with the value of a computation that may have halted. -/
def check : Except Halt α → m α
  | .ok a => pure a
  | .error h => halt h

/-- Goes on with the value of an answer that may be an error; `wrap` names that
error among those that can end the code. -/
def accept (wrap : ε' → ε) : Except ε' α → m α
  | .ok a => pure a
  | .error e => fail (wrap e)

/-- Goes on with the value of code that ended on its own. -/
def settle : Except (Stop ε) α → m α
  | .ok a => pure a
  | .error stop => throw stop

end Ends

/-- The value of arithmetic that has to fit, or the halt of arithmetic that
did not. -/
def orOverflow {α : Type} : Option α → Except Halt α
  | some a => .ok a
  | none => .error .overflow

end BootHandoff

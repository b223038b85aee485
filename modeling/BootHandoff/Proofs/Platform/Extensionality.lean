/-
# A program is its paths

A program asks something on every platform, so each query of it is on some
path, and two programs with the same paths are the same program
(`Firmware.ext_of_path`).  What is proved of all paths of one program by cases
is in this way an equation between programs, and holds of their runs on every
platform: the results, the states and the steps.
-/

import BootHandoff.Bench.Absent
import BootHandoff.Proofs.Platform.Path

namespace BootHandoff
namespace Platform
namespace Firmware

variable {α : Type}

/-- Every program has a path: the one it takes where nothing is. -/
theorem exists_path (x : Firmware α) : ∃ steps a, x.Path steps a :=
  ⟨_, _, path_run ⟨fun q (_ : Unit) => (Bench.absent q, ())⟩ x ()⟩

/-- **A program all of whose paths are paths of another is that program.** -/
theorem ext_of_path {x y : Firmware α} (h : ∀ steps a, x.Path steps a → y.Path steps a) :
    x = y := by
  induction x generalizing y with
  | done a =>
    cases h [] a (.done a)
    rfl
  | ask q next ih =>
    obtain ⟨steps, a, hpath⟩ := exists_path (next (Bench.absent q))
    cases h _ _ (.ask q _ hpath) with
    | @ask _ _ next' _ _ _ =>
      have hnext : ∀ answer, next answer = next' answer := by
        intro answer
        refine ih answer fun steps a hpath => ?_
        obtain ⟨_, _, hsteps, hpath'⟩ := path_ask_iff.1 (h _ _ (.ask q answer hpath))
        cases hsteps
        exact hpath'
      rw [funext hnext]

end Firmware

/-- The same for an action on a value. -/
theorem Action.on_eq_of_path {σ ε α : Type} {x y : Action σ ε α} {s : σ}
    (h : ∀ steps result t, x.Path s steps result t → y.Path s steps result t) :
    x.on s = y.on s :=
  Firmware.ext_of_path fun steps ended hpath => h steps ended.1 ended.2 hpath

end Platform
end BootHandoff

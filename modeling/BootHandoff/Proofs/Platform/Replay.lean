/-
# Replaying a trace

A run is told by its steps: `Machine.after` is the state that a platform is in
once it was asked them, and `Machine.Answers` says that the answers in them are
the ones the platform gives.  A path through a program that a platform answers
in this way is the program's run on it (`run_eq_of_path`), so what a program does
on a platform is found by writing down a path and checking its answers.

`Steady` platforms are those on which nothing but the registers can change: a
register reads back what was last written to it, and every other part always
gives the same answer.
-/

import BootHandoff.Proofs.Platform.Path
import Mathlib.Logic.Function.Basic

namespace BootHandoff
namespace Platform

variable {σ α : Type} {m : Machine σ} {u : σ} {steps first rest : List Step} {step : Step}

namespace Machine

/-- The state of a platform once it was asked these things. -/
def after (m : Machine σ) : σ → List Step → σ
  | u, [] => u
  | u, step :: rest => m.after (m.respond step.query u).2 rest

/-- The answers in these steps are those of a platform from a state on. -/
def Answers (m : Machine σ) : σ → List Step → Prop
  | _, [] => True
  | u, step :: rest =>
    step.answer = (m.respond step.query u).1 ∧ m.Answers (m.respond step.query u).2 rest

theorem after_append : m.after u (first ++ rest) = m.after (m.after u first) rest := by
  induction first generalizing u with
  | nil => rfl
  | cons step first ih => exact ih

theorem answers_append :
    m.Answers u (first ++ rest) ↔ m.Answers u first ∧ m.Answers (m.after u first) rest := by
  induction first generalizing u with
  | nil => exact (and_iff_right trivial).symm
  | cons step first ih =>
    show _ ∧ m.Answers _ (first ++ rest) ↔ (_ ∧ _) ∧ _
    rw [ih, and_assoc]
    rfl

end Machine
namespace Firmware

/-- The steps of a run are answered by the platform it is on. -/
theorem answers_run (m : Machine σ) (x : Firmware α) (u : σ) : m.Answers u (x.run m u).steps := by
  induction x generalizing u with
  | done a => trivial
  | ask q next ih => exact ⟨rfl, ih _ _⟩

/-- A run leaves the platform in the state that its steps lead to. -/
theorem state_run (m : Machine σ) (x : Firmware α) (u : σ) :
    (x.run m u).state = m.after u (x.run m u).steps := by
  induction x generalizing u with
  | done a => rfl
  | ask q next ih => exact ih _ _

/-- **A path that a platform answers is the run on it.** -/
theorem run_eq_of_path {x : Firmware α} {a : α} (h : x.Path steps a)
    (hanswers : m.Answers u steps) : x.run m u = ⟨a, m.after u steps, steps⟩ := by
  induction h generalizing u with
  | done a => rfl
  | ask q answer _ ih =>
    obtain ⟨hanswer, hrest⟩ := hanswers
    obtain rfl : answer = (m.respond q u).1 := hanswer
    have hrun := ih hrest
    rw [run_ask, hrun]
    rfl

end Firmware

/-- The contents of the registers, by address. -/
abbrev RegisterFile := UInt64 → UInt32

/-- A platform whose registers read back what was last written to them, and
whose other parts always give the same answers. -/
def steady (answers : (q : Query) → q.Answer) : Machine RegisterFile where
  respond
    | .readRegister address, file => (file address, file)
    | .writeRegister address value, file => ((), Function.update file address value)
    | q, file => (answers q, file)

/-- A query that writes no register. -/
def Query.KeepsRegisters : Query → Prop
  | .writeRegister .. => False
  | _ => True

variable {answers : (q : Query) → q.Answer} {file : RegisterFile}

theorem steady_respond_of_keeps {q : Query} (hq : q.KeepsRegisters) :
    ((steady answers).respond q file).2 = file := by
  cases q with
  | writeRegister address value => exact hq.elim
  | _ => rfl

/-- Without a write the registers stay as they are. -/
theorem steady_after_of_keeps (h : ∀ step ∈ steps, step.query.KeepsRegisters) :
    (steady answers).after file steps = file := by
  induction steps with
  | nil => rfl
  | cons step rest ih =>
    obtain ⟨hstep, hrest⟩ := List.forall_mem_cons.1 h
    show (steady answers).after ((steady answers).respond step.query file).2 rest = file
    rw [steady_respond_of_keeps hstep, ih hrest]

end Platform
end BootHandoff

/-
# Two states that a platform shows as the same

What a platform keeps for itself nobody sees.  It may count the calls made on it, and then it
is never twice in one state, and yet answers as if nothing had happened.  `SameOn P` says of
two states that no questions of the kind `P` tell them apart: the platform answers the same
from either.

To see that two states are the same it is enough to find a relation between states that
passes from one question to the next (`sameOn_of_relation`).  Code that asks only such
questions ends in the same way, by the same steps, from either state, and leaves the two the
same (`SameOn.run`).
-/

import BootHandoff.Proofs.Platform.Asks
import BootHandoff.Proofs.Platform.Replay

namespace BootHandoff
namespace Platform

variable {σ α : Type} {m : Machine σ} {P : Query → Prop} {u v w : σ} {steps : List Step}

namespace Machine

/-- Questions of the kind `P` are answered the same from these two states on. -/
def SameOn (m : Machine σ) (P : Query → Prop) (u v : σ) : Prop :=
  ∀ steps, (∀ step ∈ steps, P step.query) → (m.Answers u steps ↔ m.Answers v steps)

theorem SameOn.trans (h : m.SameOn P u v) (h' : m.SameOn P v w) : m.SameOn P u w :=
  fun steps hsteps => (h steps hsteps).trans (h' steps hsteps)

/-- Two states that are the same still are after the same steps. -/
theorem SameOn.after (h : m.SameOn P u v) (hsteps : ∀ step ∈ steps, P step.query)
    (hanswers : m.Answers u steps) : m.SameOn P (m.after u steps) (m.after v steps) := by
  intro rest hrest
  have hanswers' := (h steps hsteps).1 hanswers
  have hall := h (steps ++ rest) (List.forall_mem_append.2 ⟨hsteps, hrest⟩)
  rw [answers_append, answers_append] at hall
  exact ⟨fun hu => (hall.1 ⟨hanswers, hu⟩).2, fun hv => (hall.2 ⟨hanswers', hv⟩).2⟩

/-- **States are the same if a relation between them passes on.** -/
theorem sameOn_of_relation {R : σ → σ → Prop}
    (hpass : ∀ q, P q → ∀ u v, R u v →
      (m.respond q u).1 = (m.respond q v).1 ∧ R (m.respond q u).2 (m.respond q v).2)
    (h : R u v) : m.SameOn P u v := by
  intro steps hsteps
  induction steps generalizing u v with
  | nil => exact Iff.rfl
  | cons step rest ih =>
    obtain ⟨hstep, hrest⟩ := List.forall_mem_cons.1 hsteps
    obtain ⟨hanswer, hnext⟩ := hpass step.query hstep u v h
    show step.answer = _ ∧ _ ↔ step.answer = _ ∧ _
    rw [hanswer, ih hnext hrest]

/-- **A program does the same from states that are the same.** -/
theorem SameOn.run (h : m.SameOn P u v) {x : Firmware α} (hx : x.Asks P) :
    (x.run m u).value = (x.run m v).value ∧ (x.run m u).steps = (x.run m v).steps ∧
      m.SameOn P (x.run m u).state (x.run m v).state := by
  have hpath := Firmware.path_run m x u
  have hasks := hx _ _ hpath
  have hanswers := Firmware.answers_run m x u
  rw [Firmware.run_eq_of_path hpath ((h _ hasks).1 hanswers), Firmware.state_run]
  exact ⟨rfl, rfl, h.after hasks hanswers⟩

end Machine
end Platform
end BootHandoff

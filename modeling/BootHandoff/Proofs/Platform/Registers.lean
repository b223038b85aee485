/-
# The registers of a platform

A platform may have any state, and its parts may answer differently from one time to the
next.  `ReadsBack` asks nothing of it but that its registers, which are one view of its
state, read back what was last written to them and change in no other way.

Such registers are a machine of their own: each step for them is answered as the
registers of a `steady` platform answer it, and any other step leaves them as they are.
So what happens to them is a matter of their share of the steps
(`ReadsBack.file_after`, `ReadsBack.answers_history`), and code that asks nothing else
runs there as it runs on a steady platform (`ReadsBack.run_eq`).

What has to hold at the moment at which something is asked is said with `Machine.Along`,
which speaks of every step together with the state that the platform is in then.
-/

import BootHandoff.Bench.Rig
import BootHandoff.Proofs.Platform.Asks
import BootHandoff.Proofs.Platform.Parts

namespace BootHandoff
namespace Platform

variable {σ α : Type} {m : Machine σ} {file : σ → RegisterFile} {u : σ} {steps : List Step}

section Along

variable {P : σ → Step → Prop} {first rest : List Step}

/-- `P` holds of every step and the state of the platform in which it is asked. -/
def Machine.Along (m : Machine σ) (P : σ → Step → Prop) : σ → List Step → Prop
  | _, [] => True
  | u, step :: rest => P u step ∧ m.Along P (m.respond step.query u).2 rest

theorem Machine.along_append :
    m.Along P u (first ++ rest) ↔ m.Along P u first ∧ m.Along P (m.after u first) rest := by
  induction first generalizing u with
  | nil => exact (and_iff_right trivial).symm
  | cons step first ih =>
    show _ ∧ m.Along P _ (first ++ rest) ↔ (_ ∧ _) ∧ _
    rw [ih, and_assoc]
    rfl

end Along

/-- The registers of a platform, which in its states hold `file`, read back what was last
written to them, and nothing but a write changes them. -/
structure ReadsBack (m : Machine σ) (file : σ → RegisterFile) : Prop where
  read : ∀ address u, (m.respond (.readRegister address) u).1 = file u address
  write : ∀ address value u,
    file (m.respond (.writeRegister address value) u).2 = Function.update (file u) address value
  keep : ∀ q u, q.KeepsRegisters → file (m.respond q u).2 = file u

/-- What is asked of another part writes no register. -/
theorem Query.keepsRegisters_of_part_ne {q : Query} (h : q.part ≠ .registers) :
    q.KeepsRegisters := by
  cases q with
  | writeRegister address value => exact absurd rfl h
  | _ => trivial

namespace ReadsBack

/-- What is asked of the registers is answered as on a steady platform, and does to them
what it does there. -/
theorem respond_eq (h : ReadsBack m file) (answers : (q : Query) → q.Answer) {q : Query}
    (hq : q.part = .registers) :
    (m.respond q u).1 = ((steady answers).respond q (file u)).1 ∧
      file (m.respond q u).2 = ((steady answers).respond q (file u)).2 := by
  cases q with
  | readRegister address => exact ⟨h.read address u, h.keep _ u trivial⟩
  | writeRegister address value => exact ⟨rfl, h.write address value u⟩
  | _ => cases hq

/-- **The registers end where their own share of the steps leads them.** -/
theorem file_after (h : ReadsBack m file) (answers : (q : Query) → q.Answer) :
    file (m.after u steps) = (steady answers).after (file u) (Part.registers.history steps) := by
  induction steps generalizing u with
  | nil => rfl
  | cons step rest ih =>
    refine ih.trans ?_
    by_cases hpart : step.query.part = .registers
    · rw [Part.history_cons_self hpart, (h.respond_eq answers hpart).2]
      rfl
    · rw [Part.history_cons_of_ne hpart, h.keep _ _ (Query.keepsRegisters_of_part_ne hpart)]

/-- **The registers answer their own share of the steps** as those of a steady platform. -/
theorem answers_history (h : ReadsBack m file) (answers : (q : Query) → q.Answer)
    (hsteps : m.Answers u steps) :
    (steady answers).Answers (file u) (Part.registers.history steps) := by
  induction steps generalizing u with
  | nil => trivial
  | cons step rest ih =>
    obtain ⟨hanswer, hrest⟩ := hsteps
    have hshare := ih hrest
    by_cases hpart : step.query.part = .registers
    · obtain ⟨hreply, hfile⟩ := h.respond_eq (u := u) answers hpart
      rw [Part.history_cons_self hpart]
      exact ⟨hanswer.trans hreply, hfile ▸ hshare⟩
    · rw [h.keep _ _ (Query.keepsRegisters_of_part_ne hpart)] at hshare
      rwa [Part.history_cons_of_ne hpart]

/-- **Code that asks only the registers runs as on a steady platform.** -/
theorem run_eq (h : ReadsBack m file) (answers : (q : Query) → q.Answer) {x : Firmware α}
    (hx : x.Asks fun q => q.part = .registers) (u : σ) :
    x.run (steady answers) (file u) =
      ⟨(x.run m u).value, file (x.run m u).state, (x.run m u).steps⟩ := by
  have hpath := Firmware.path_run m x u
  have hshare : Part.registers.history (x.run m u).steps = (x.run m u).steps :=
    (Part.Only.history (hx _ _ hpath) .registers).trans (if_pos rfl)
  have hanswers := h.answers_history answers (Firmware.answers_run m x u)
  rw [hshare] at hanswers
  rw [Firmware.run_eq_of_path hpath hanswers, Firmware.state_run, h.file_after answers, hshare]

/-- What holds along steps for the registers on a steady platform holds along them here. -/
theorem along (h : ReadsBack m file) (answers : (q : Query) → q.Answer)
    {P : RegisterFile → Step → Prop} (hsteps : Part.registers.Only steps)
    (hP : (steady answers).Along P (file u) steps) : m.Along (fun now => P (file now)) u steps := by
  induction steps generalizing u with
  | nil => trivial
  | cons step rest ih =>
    obtain ⟨hpart, hrest⟩ := List.forall_mem_cons.1 hsteps
    refine ⟨hP.1, ih hrest ?_⟩
    rw [(h.respond_eq answers hpart).2]
    exact hP.2

end ReadsBack

/-- Along steps that write no register the registers stay what they are. -/
theorem along_of_keeps {answers : (q : Query) → q.Answer} {now : RegisterFile}
    {P : RegisterFile → Step → Prop} (hkeeps : ∀ step ∈ steps, step.query.KeepsRegisters)
    (hP : ∀ step ∈ steps, P now step) : (steady answers).Along P now steps := by
  induction steps with
  | nil => trivial
  | cons step rest ih =>
    obtain ⟨hstep, hrest⟩ := List.forall_mem_cons.1 hkeeps
    refine ⟨hP _ List.mem_cons_self, ?_⟩
    rw [steady_respond_of_keeps hstep]
    exact ih hrest fun step hmem => hP step (List.mem_cons_of_mem _ hmem)

/-- The registers of a steady platform are all its state. -/
theorem readsBack_steady (answers : (q : Query) → q.Answer) : ReadsBack (steady answers) id :=
  ⟨fun _ _ => rfl, fun _ _ _ => rfl, fun _ _ hq => steady_respond_of_keeps hq⟩

end Platform
namespace Bench

open Platform

/-- The registers of the bench read back what was last written. -/
theorem Rig.readsBack : ReadsBack Rig.machine fun r => r.registers.read := by
  refine ⟨fun _ _ => rfl, fun address value r => funext fun other => ?_, fun q r hq => ?_⟩
  · show (List.lookup other ((address, value) :: r.registers.writes)).getD 0 = _
    rw [List.lookup_cons]
    by_cases heq : other = address
    · rw [heq, beq_self_eq_true, Function.update_self]
      rfl
    · rw [beq_false_of_ne heq, Function.update_of_ne heq]
      rfl
  · cases q with
    | writeRegister address value => exact hq.elim
    | _ => rfl

end Bench
end BootHandoff

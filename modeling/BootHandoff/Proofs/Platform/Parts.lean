/-
# A platform and its parts

The board code, the drivers, the registers, the flash and the product data are
separate things, and what one of them answers depends on nothing that another
was asked.  `Machine.assemble` puts a platform together from one machine for
each `Part`.  What it answers is what the parts answer, each to its own share of
the steps (`answers_assemble`).

So a part can be exchanged for another one and the steps of the rest go through
unchanged, which is how two platforms that differ in some of their parts are
compared.
-/

import BootHandoff.Proofs.Platform.Replay

namespace BootHandoff
namespace Platform

/-- A part of the platform. -/
inductive Part where
  | flash
  | registers
  | drivers
  | memory
  | productData
  | processor
  /-- Code of the vendor or of the board. -/
  | code
  /-- The clock and the non-volatile block. -/
  | clock
  | log
  deriving DecidableEq, Repr

/-- The part that a query is for. -/
def Query.part : Query → Part
  | .openFlash | .closeFlash | .findArea _ | .locateFile _ | .loadStage _ | .loadStageAt _
  | .mapFlash .. | .readFlash .. => .flash
  | .readRegister _ | .writeRegister .. => .registers
  | .memoryBelow4G | .memoryAbove4G | .carveout _ | .developerMode => .drivers
  | .window .. | .store .. => .memory
  | .productData _ => .productData
  | .clean _ | .disableMmu | .enterMonitor .. => .processor
  | .train _ | .adjustSecureOs .. | .extendMonitorParams _ => .code
  | .now | .readNonVolatile | .saveNonVolatile _ => .clock
  | .log .. => .log

variable {p q : Part} {first rest steps : List Step} {step : Step}

namespace Part

/-- The share that a part has in the steps. -/
def history (p : Part) (steps : List Step) : List Step :=
  steps.filter fun step => step.query.part = p

@[simp] theorem history_nil : p.history [] = [] := rfl

@[simp] theorem history_append :
    p.history (first ++ rest) = p.history first ++ p.history rest :=
  List.filter_append ..

/-- Whether a step is in the share of a part is seen from its query. -/
@[simp] theorem history_mk_cons (query : Query) (answer : query.Answer) :
    p.history (⟨query, answer⟩ :: rest) =
      if query.part = p then ⟨query, answer⟩ :: p.history rest else p.history rest := by
  unfold history
  rw [List.filter_cons]
  simp only [decide_eq_true_eq]

theorem history_cons_self (h : step.query.part = p) :
    p.history (step :: rest) = step :: p.history rest :=
  List.filter_cons_of_pos (decide_eq_true h)

theorem history_cons_of_ne (h : step.query.part ≠ p) :
    p.history (step :: rest) = p.history rest :=
  List.filter_cons_of_neg (by simpa using h)

/-- A part has no share in steps that are all for other parts. -/
theorem history_eq_nil_iff : p.history steps = [] ↔ ∀ step ∈ steps, step.query.part ≠ p := by
  unfold history
  rw [List.filter_eq_nil_iff]
  simp only [decide_eq_true_eq]

/-- All of these steps are for one part. -/
def Only (p : Part) (steps : List Step) : Prop := ∀ step ∈ steps, step.query.part = p

/-- Steps for one part are its share, and no share of another one. -/
theorem Only.history (h : p.Only steps) (q : Part) :
    q.history steps = if p = q then steps else [] := by
  split
  · rename_i heq
    exact List.filter_eq_self.2 fun step hstep => decide_eq_true (heq ▸ h step hstep)
  · rename_i hne
    exact history_eq_nil_iff.2 fun step hstep => h step hstep ▸ hne

end Part

/-- The log and the processor have nothing to answer. -/
theorem Query.subsingleton_answer {query : Query}
    (h : query.part = .log ∨ query.part = .processor) : Subsingleton query.Answer := by
  cases query with
  | log | clean | disableMmu | enterMonitor => exact inferInstanceAs (Subsingleton Unit)
  | _ => rcases h with ⟨⟨⟩⟩ | ⟨⟨⟩⟩

namespace Machine

/-- Every platform answers what has only one answer. -/
theorem answers_of_subsingleton {σ : Type} {m : Machine σ} {u : σ}
    (h : ∀ step ∈ steps, Subsingleton step.query.Answer) : m.Answers u steps := by
  induction steps generalizing u with
  | nil => trivial
  | cons step rest ih =>
    obtain ⟨hstep, hrest⟩ := List.forall_mem_cons.1 h
    exact ⟨hstep.elim _ _, ih hrest⟩

theorem answers_history_of_silent {σ : Type} {m : Machine σ} {u : σ}
    (hp : p = .log ∨ p = .processor) : m.Answers u (p.history steps) := by
  refine answers_of_subsingleton fun step hstep => Query.subsingleton_answer ?_
  rwa [of_decide_eq_true (List.mem_filter.1 hstep).2]

variable {State : Part → Type} {parts : (p : Part) → Machine (State p)} {u : (p : Part) → State p}

/-- The platform that has these parts. -/
def assemble (parts : (p : Part) → Machine (State p)) : Machine ((p : Part) → State p) where
  respond query u :=
    let reply := (parts query.part).respond query (u query.part)
    (reply.1, Function.update u query.part reply.2)

/-- **A platform answers these steps if each of its parts answers its own share
of them.** -/
theorem answers_assemble :
    (assemble parts).Answers u steps ↔ ∀ p, (parts p).Answers (u p) (p.history steps) := by
  induction steps generalizing u with
  | nil => exact ⟨fun _ _ => trivial, fun _ => trivial⟩
  | cons step rest ih =>
    have hown : ∀ p, (parts p).Answers (u p) (p.history (step :: rest)) ↔
        (step.query.part = p →
          step.answer = ((parts step.query.part).respond step.query (u step.query.part)).1) ∧
        (parts p).Answers (Function.update u step.query.part
          ((parts step.query.part).respond step.query (u step.query.part)).2 p)
          (p.history rest) := by
      intro p
      by_cases h : step.query.part = p
      · subst h
        rw [Part.history_cons_self rfl, Function.update_self]
        exact and_congr_left' ⟨fun h _ => h, fun h => h rfl⟩
      · rw [Part.history_cons_of_ne h, Function.update_of_ne (Ne.symm h)]
        exact (and_iff_right fun heq => absurd heq h).symm
    simp only [hown, forall_and, forall_eq']
    exact and_congr_right' ih

/-- Two platforms have the same part, and it is in the same state. -/
structure SamePart (parts parts' : (p : Part) → Machine (State p)) (u u' : (p : Part) → State p)
    (p : Part) : Prop where
  part_eq : parts' p = parts p
  state_eq : u' p = u p

/-- What two platforms have in common answers the same steps. -/
theorem SamePart.answers_iff {parts' : (p : Part) → Machine (State p)}
    {u' : (p : Part) → State p} (h : SamePart parts parts' u u' p) :
    (parts' p).Answers (u' p) steps ↔ (parts p).Answers (u p) steps := by
  rw [h.part_eq, h.state_eq]

end Machine
end Platform
end BootHandoff

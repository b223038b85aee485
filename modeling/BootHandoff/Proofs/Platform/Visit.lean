/-
# Visits to the flash

The flash map and the contents of the flash can be looked at only while the flash is open,
and whoever opened it has to close it.  The discipline is stated twice.

* `Visit` says of the steps of one call that they make at most one visit.  Either the
  flash is left alone; or it does not open, and is left alone from then on; or it opens, is
  looked at, and is closed once.
* `Bracketed` says it of any steps, by going through them with nothing in mind but whether
  the flash is open.  No step may open an open flash, or close or look at a closed one, and
  at the end the flash is closed.

A visit is bracketed (`Visit.bracketed`), and so is one after the other
(`bracketed_flatten`).
-/

import BootHandoff.Proofs.Platform.Parts

namespace BootHandoff
namespace Platform

variable {first rest inner steps : List Step}

/-- A query that neither opens nor closes the flash. -/
def Query.KeepsOpen : Query → Prop
  | .openFlash | .closeFlash => False
  | _ => True

/-- A query that leaves the flash alone: besides neither opening nor closing it, it does not
look at the flash map or at a mapping.  The container is asked without opening the flash,
so its queries are among these. -/
def Query.Outside : Query → Prop
  | .openFlash | .closeFlash | .findArea _ | .mapFlash .. => False
  | _ => True

/-- What is for another part of the platform leaves the flash alone. -/
theorem Query.outside_of_part {q : Query} (h : q.part ≠ .flash) : q.Outside := by
  cases q <;> trivial

/-- Steps that make at most one visit to the flash. -/
inductive Visit : List Step → Prop where
  /-- The flash is left alone. -/
  | none {steps : List Step} (h : ∀ step ∈ steps, step.query.Outside) : Visit steps
  /-- The flash does not open, and is left alone before and after. -/
  | refused {before after : List Step} (e : FlashError)
      (hbefore : ∀ step ∈ before, step.query.Outside)
      (hafter : ∀ step ∈ after, step.query.Outside) :
      Visit (before ++ ⟨.openFlash, .error e⟩ :: after)
  /-- The flash opens and closes, and is left alone before and after. -/
  | made {before inner after : List Step} (hbefore : ∀ step ∈ before, step.query.Outside)
      (hinner : ∀ step ∈ inner, step.query.KeepsOpen)
      (hafter : ∀ step ∈ after, step.query.Outside) :
      Visit (before ++ ⟨.openFlash, .ok ()⟩ :: (inner ++ ⟨.closeFlash, ()⟩ :: after))

/-- Nothing is done but to find that the flash does not open. -/
theorem Visit.ofRefusal (e : FlashError) : Visit [⟨.openFlash, .error e⟩] :=
  .refused e (List.forall_mem_nil _) (List.forall_mem_nil _)

/-- Nothing is done but between opening the flash and closing it. -/
theorem Visit.ofSession (h : ∀ step ∈ inner, step.query.KeepsOpen) :
    Visit (⟨.openFlash, .ok ()⟩ :: (inner ++ [⟨.closeFlash, ()⟩])) :=
  .made (List.forall_mem_nil _) h (List.forall_mem_nil _)

/-- A visit stays one if the flash is left alone before it. -/
theorem Visit.append_left (hfirst : ∀ step ∈ first, step.query.Outside) (h : Visit rest) :
    Visit (first ++ rest) := by
  cases h with
  | none hrest => exact .none (List.forall_mem_append.2 ⟨hfirst, hrest⟩)
  | refused e hbefore hafter =>
    rw [← List.append_assoc]
    exact .refused e (List.forall_mem_append.2 ⟨hfirst, hbefore⟩) hafter
  | made hbefore hinner hafter =>
    rw [← List.append_assoc]
    exact .made (List.forall_mem_append.2 ⟨hfirst, hbefore⟩) hinner hafter

/-- A visit stays one if the flash is left alone after it. -/
theorem Visit.append_right (h : Visit first) (hrest : ∀ step ∈ rest, step.query.Outside) :
    Visit (first ++ rest) := by
  cases h with
  | none hfirst => exact .none (List.forall_mem_append.2 ⟨hfirst, hrest⟩)
  | refused e hbefore hafter =>
    rw [List.append_assoc, List.cons_append]
    exact .refused e hbefore (List.forall_mem_append.2 ⟨hafter, hrest⟩)
  | made hbefore hinner hafter =>
    rw [List.append_assoc, List.cons_append, List.append_assoc, List.cons_append]
    exact .made hbefore hinner (List.forall_mem_append.2 ⟨hafter, hrest⟩)

/-- A step more before a visit. -/
theorem Visit.cons {step : Step} (hstep : step.query.Outside) (h : Visit rest) :
    Visit (step :: rest) :=
  h.append_left (List.forall_mem_singleton.2 hstep)

/-- Whether the flash is open behind a step, as it was before, or nothing for a step that is
out of place. -/
def Step.openAfter? (isOpen : Bool) : Step → Option Bool
  | ⟨.openFlash, answer⟩ => if isOpen then none else some answer.isOk
  | ⟨.closeFlash, _⟩ => if isOpen then some false else none
  | ⟨.findArea _, _⟩ => if isOpen then some true else none
  | ⟨.mapFlash .., _⟩ => if isOpen then some true else none
  | _ => some isOpen

/-- From a closed flash to a closed flash, with no step out of place. -/
def Bracketed (steps : List Step) : Prop := steps.foldlM Step.openAfter? false = some false

instance : DecidablePred Bracketed := fun _ => inferInstanceAs (Decidable (_ = _))

theorem openAfter?_of_outside {step : Step} (h : step.query.Outside) (isOpen : Bool) :
    step.openAfter? isOpen = some isOpen := by
  obtain ⟨q, answer⟩ := step
  cases q <;> first | rfl | exact h.elim

theorem openAfter?_of_keepsOpen {step : Step} (h : step.query.KeepsOpen) :
    step.openAfter? true = some true := by
  obtain ⟨q, answer⟩ := step
  cases q <;> first | rfl | exact h.elim

/-- What no step changes is unchanged after all of them. -/
theorem foldlM_openAfter? {isOpen : Bool}
    (h : ∀ step ∈ steps, step.openAfter? isOpen = some isOpen) :
    steps.foldlM Step.openAfter? isOpen = some isOpen := by
  induction steps with
  | nil => rfl
  | cons step rest ih =>
    obtain ⟨hstep, hrest⟩ := List.forall_mem_cons.1 h
    rw [List.foldlM_cons, hstep]
    exact ih hrest

theorem bracketed_nil : Bracketed [] := rfl

theorem Bracketed.append (hfirst : Bracketed first) (hrest : Bracketed rest) :
    Bracketed (first ++ rest) := by
  unfold Bracketed
  rw [List.foldlM_append, hfirst]
  exact hrest

theorem bracketed_of_outside (h : ∀ step ∈ steps, step.query.Outside) : Bracketed steps :=
  foldlM_openAfter? fun step hstep => openAfter?_of_outside (h step hstep) false

/-- Looking at the flash between opening and closing it is bracketed. -/
theorem bracketed_session (h : ∀ step ∈ inner, step.query.KeepsOpen) :
    Bracketed (⟨.openFlash, .ok ()⟩ :: (inner ++ [⟨.closeFlash, ()⟩])) := by
  have hinner : inner.foldlM Step.openAfter? true = some true :=
    foldlM_openAfter? fun step hstep => openAfter?_of_keepsOpen (h step hstep)
  unfold Bracketed
  rw [List.foldlM_cons]
  show List.foldlM Step.openAfter? true _ = some false
  rw [List.foldlM_append, hinner]
  rfl

/-- **A visit is bracketed.** -/
theorem Visit.bracketed (h : Visit steps) : Bracketed steps := by
  cases h with
  | none h => exact bracketed_of_outside h
  | refused e hbefore hafter =>
    have hopening : Bracketed [⟨.openFlash, .error e⟩] := rfl
    exact (bracketed_of_outside hbefore).append (hopening.append (bracketed_of_outside hafter))
  | @made before inner after hbefore hinner hafter =>
    have hsession := (bracketed_session hinner).append (bracketed_of_outside hafter)
    rw [List.cons_append, List.append_assoc] at hsession
    exact (bracketed_of_outside hbefore).append hsession

/-- A flash that is open is not opened again, even if each opening has its closing. -/
example : ¬Bracketed [⟨.openFlash, .ok ()⟩, ⟨.openFlash, .ok ()⟩, ⟨.closeFlash, ()⟩,
    ⟨.closeFlash, ()⟩] := by
  decide

/-- What is bracketed piece by piece is bracketed as a whole. -/
theorem bracketed_flatten {pieces : List (List Step)} (h : ∀ steps ∈ pieces, Bracketed steps) :
    Bracketed pieces.flatten := by
  induction pieces with
  | nil => exact bracketed_nil
  | cons steps pieces ih =>
    obtain ⟨hsteps, hpieces⟩ := List.forall_mem_cons.1 h
    exact hsteps.append (ih hpieces)

end Platform
end BootHandoff

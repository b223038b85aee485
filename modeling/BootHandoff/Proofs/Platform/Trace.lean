/-
# What a trace shows

The steps of a run are all there is to see of it.  `seen` picks out of them
what one kind of query says: the reads of the flash, the operations of the
processor, the stores to memory.  `Throughout` speaks of every step together
with what came before it, which is how a condition is put on the moment at
which something is asked.

Physical memory is a function of the stores: `Contents.after` is what it holds
once they are done, and a byte that no store reaches keeps its value.  What a flash
holds is told in the same way, by what it delivers (`Step.Delivers`) and by what its
mappings display (`Step.Displays`).
-/

import BootHandoff.Proofs.Platform.Asks

namespace BootHandoff
namespace Platform

/-- The step that writes a line of the log. -/
def logged (level : Level) (text : String) : Step := ⟨.log level text, ()⟩

/-- The reads of the flash, by offset and number of bytes. -/
def Query.read? : Query → Option (UInt32 × Nat)
  | .readFlash offset size _ => some (offset, size)
  | _ => none

/-- The stores to memory, by address and bytes. -/
def Query.store? : Query → Option (UInt64 × Bytes)
  | .store base bytes => some (base, bytes)
  | _ => none

/-- The requests for access to memory, by address and length. -/
def Query.window? : Query → Option (UInt64 × UInt64)
  | .window base len => some (base, len)
  | _ => none

/-- The operations of the processor. -/
def Query.processor? : Query → Option Query
  | .clean block => some (.clean block)
  | .disableMmu => some .disableMmu
  | .enterMonitor entry params platformParams memory =>
    some (.enterMonitor entry params platformParams memory)
  | _ => none

/-- The entries at which training code is run. -/
def Query.train? : Query → Option UInt64
  | .train entry => some entry
  | _ => none

/-- A query that neither reads the flash nor touches memory. -/
structure Query.KeepsMemory (q : Query) : Prop where
  read : q.read? = none
  store : q.store? = none
  window : q.window? = none

/-- A call that asks the container for an image by its name. -/
def Query.NamesImage : Query → Prop
  | .loadStage _ | .locateFile _ => True
  | _ => False

section Seen

variable {α : Type} {view : Query → Option α}

/-- What one kind of query says, in the order of the steps. -/
def seen (view : Query → Option α) (steps : List Step) : List α :=
  steps.filterMap fun step => view step.query

@[simp] theorem seen_nil : seen view [] = [] := rfl

@[simp] theorem seen_append (first rest : List Step) :
    seen view (first ++ rest) = seen view first ++ seen view rest := List.filterMap_append

theorem seen_cons (step : Step) (rest : List Step) :
    seen view (step :: rest) = (view step.query).toList ++ seen view rest := by
  unfold seen
  rw [List.filterMap_cons]
  cases view step.query <;> rfl

theorem seen_eq_nil {steps : List Step} (h : ∀ step ∈ steps, view step.query = none) :
    seen view steps = [] :=
  List.filterMap_eq_nil_iff.2 h

/-- **There is one way to cut steps at the one step that a view shows.** -/
theorem split_unique {first rest before after : List Step} {step step' : Step}
    (h : first ++ step :: rest = before ++ step' :: after) (hfirst : seen view first = [])
    (hrest : seen view rest = []) (hstep : view step'.query ≠ none) :
    first = before ∧ step = step' ∧ rest = after := by
  have hnot : ∀ {steps : List Step}, seen view steps = [] → step' ∉ steps := fun hnone hmem =>
    hstep (List.filterMap_eq_nil_iff.1 hnone step' hmem)
  rcases List.append_eq_append_iff.1 h with ⟨_ | ⟨other, middle⟩, rfl, htail⟩ |
    ⟨_ | ⟨other, middle⟩, rfl, htail⟩
  · obtain ⟨rfl, rfl⟩ := List.cons.inj htail
    exact ⟨(List.append_nil _).symm, rfl, rfl⟩
  · obtain ⟨-, rfl⟩ := List.cons.inj htail
    exact absurd (List.mem_append_right middle List.mem_cons_self) (hnot hrest)
  · obtain ⟨rfl, rfl⟩ := List.cons.inj htail
    exact ⟨List.append_nil _, rfl, rfl⟩
  · obtain ⟨rfl, -⟩ := List.cons.inj htail
    exact absurd (List.mem_append_right before List.mem_cons_self) (hnot hfirst)

/-- A view of what a task does not ask shows nothing of it. -/
theorem Task.Asks.seen_eq_nil {ε β : Type} {P : Query → Prop} {t : Task ε β} {steps : List Step}
    {result : Except (Stop ε) β} (ht : t.Asks P) (h : t.Path steps result)
    (hview : ∀ q, P q → view q = none) : seen view steps = [] :=
  Platform.seen_eq_nil fun step hstep => hview step.query (ht steps result h step hstep)

end Seen

section Throughout

variable {P : List Step → Step → Prop} {first rest steps : List Step} {step : Step}

/-- `P` holds of every step and what came before it. -/
def Throughout (P : List Step → Step → Prop) (steps : List Step) : Prop :=
  ∀ before step after, steps = before ++ step :: after → P before step

theorem throughout_nil : Throughout P [] := by
  intro before step after h
  exact absurd h.symm (List.append_ne_nil_of_right_ne_nil _ (List.cons_ne_nil _ _))

theorem throughout_cons (hstep : P [] step)
    (hrest : Throughout (fun before => P (step :: before)) rest) : Throughout P (step :: rest) := by
  intro before other after h
  cases before with
  | nil =>
    obtain ⟨rfl, -⟩ := List.cons.inj h
    exact hstep
  | cons head before =>
    obtain ⟨rfl, htail⟩ := List.cons.inj h
    exact hrest before other after htail

theorem throughout_append (hfirst : Throughout P first)
    (hrest : Throughout (fun before => P (first ++ before)) rest) :
    Throughout P (first ++ rest) := by
  induction first generalizing P with
  | nil => exact hrest
  | cons step first ih =>
    refine throughout_cons (hfirst [] step first rfl) (ih ?_ hrest)
    intro before other after h
    exact hfirst (step :: before) other after (congrArg (step :: ·) h)

theorem throughout_of_forall (h : ∀ step ∈ steps, ∀ before, P before step) :
    Throughout P steps := by
  rintro before step after rfl
  exact h step (List.mem_append_right _ List.mem_cons_self) before

/-- A condition on what no step does holds throughout. -/
theorem throughout_of_not {A : Step → Prop} (h : ∀ step ∈ steps, ¬A step) :
    Throughout (fun before step => A step → P before step) steps :=
  throughout_of_forall fun step hstep _ hdoes => absurd hdoes (h step hstep)

end Throughout

/-- What physical memory holds, byte by byte. -/
abbrev Contents := Nat → UInt8

namespace Contents

/-- Memory after one store. -/
def store (memory : Contents) (base : UInt64) (bytes : Bytes) : Contents := fun x =>
  if base.toNat ≤ x ∧ x < base.toNat + bytes.length then bytes.getD (x - base.toNat) 0
  else memory x

/-- Memory after the stores of a trace. -/
def after (memory : Contents) (steps : List Step) : Contents :=
  (seen Query.store? steps).foldl (fun memory write => memory.store write.1 write.2) memory

theorem store_of_lt (memory : Contents) {base : UInt64} {bytes : Bytes} {i : Nat}
    (h : i < bytes.length) : memory.store base bytes (base.toNat + i) = bytes[i] := by
  unfold store
  rw [if_pos (by omega), Nat.add_sub_cancel_left, List.getD_eq_getElem?_getD,
    List.getElem?_eq_getElem h]
  rfl

/-- **A byte that no store reaches keeps its value.** -/
theorem after_eq_of_forall (memory : Contents) {steps : List Step} {x : Nat}
    (h : ∀ base bytes, (base, bytes) ∈ seen Query.store? steps →
      ¬(base.toNat ≤ x ∧ x < base.toNat + bytes.length)) : memory.after steps x = memory x := by
  unfold after
  revert h
  generalize seen Query.store? steps = writes
  intro h
  induction writes generalizing memory with
  | nil => rfl
  | cons write writes ih =>
    rw [List.foldl_cons, ih _ fun base bytes hmem => h base bytes (List.mem_cons_of_mem _ hmem)]
    exact if_neg (h write.1 write.2 List.mem_cons_self)

end Contents

/-- An answer of a flash that holds `media`: what arrives in full is what it holds there. -/
def Step.Delivers (media : Contents) : Step → Prop
  | ⟨.readFlash offset size _, (count, held)⟩ =>
    count.toNat = size → ∀ i : Fin size, held.get i = media (offset.toNat + i)
  | _ => True

/-- An answer of a flash that holds `media`: what a mapping shows, which may be less than what
was asked for, is what it holds there. -/
def Step.Displays (media : Contents) : Step → Prop
  | ⟨.mapFlash offset len, .ok shown⟩ =>
    shown.length ≤ len.toNat ∧
      ∀ i (h : i < shown.length), shown[i] = media (offset.toNat + i)
  | _ => True

end Platform
end BootHandoff

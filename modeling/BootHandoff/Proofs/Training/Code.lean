/-
# Which code is trained with

The training code is located by the same rule as any other image that is
copied, and once it is located nothing asks for an image again: `path_run` cuts
a run there.  A run that ends with a table has read the located region, whole,
and nothing else.
-/

import BootHandoff.Proofs.Training.Course

namespace BootHandoff
namespace Training

open Board Flash Platform Verified

variable {config : BootConfig} {registry : Registry} {code : TrainingConfig} {steps : List Step}

theorem Copied.not_namesImage {region : Region} {result : Except (Stop Error) Unit}
    (h : Copied code region steps result) : ∀ step ∈ steps, ¬step.query.NamesImage := by
  cases h <;> simp [Query.NamesImage, logged]

/-- A copy that succeeds has read the whole region, once. -/
theorem Copied.reads {region : Region} (h : Copied code region steps (.ok ())) :
    seen Query.read? steps = [(region.offset, region.len.toNat)] := by
  cases h
  rfl

/-- **A run of the training, cut behind the location of its code.** -/
theorem path_run {n : Nat} {place : UInt64} {area area' : Buffer n}
    {result : Except (Stop Error) Table}
    (h : (run config registry place).Path area steps result area') :
    (config.training = none ∧ steps = [] ∧ result = .error (.error .notConfigured)) ∨
    ∃ code forImage located rest, config.training = some code ∧
      (Image.locate config registry code.stage).Path forImage located ∧
      steps = forImage ++ rest ∧ (∀ step ∈ rest, ¬step.query.NamesImage) ∧
      ∀ table, result = .ok table → ∃ region, located = .ok region ∧
        seen Query.read? rest = [(region.offset, region.len.toNat)] := by
  cases course_of_path h with
  | notConfigured hcode => exact .inl ⟨hcode, rfl, rfl⟩
  | notLocated hcode hlocate =>
    exact .inr ⟨_, _, _, [], hcode, hlocate, (List.append_nil _).symm, List.forall_mem_nil _, nofun⟩
  | tooLarge hcode hlocate hlarge =>
    exact .inr ⟨_, _, _, [], hcode, hlocate, (List.append_nil _).symm, List.forall_mem_nil _, nofun⟩
  | notCopied hcode hlocate hfits hcopied =>
    exact .inr ⟨_, _, _, _, hcode, hlocate, rfl, hcopied.not_namesImage, nofun⟩
  | trained hcode hlocate hfits hcopied hanswered =>
    have hcollects := hanswered.collects
    refine .inr ⟨_, _, _, _, hcode, hlocate, rfl, List.forall_mem_append.2
      ⟨hcopied.not_namesImage, List.forall_mem_cons.2
        ⟨id, fun step hstep => (hcollects step hstep).not_namesImage⟩⟩, fun _ _ => ⟨_, rfl, ?_⟩⟩
    rw [seen_append, hcopied.reads, seen_cons,
      seen_eq_nil fun step hstep => (hcollects step hstep).read?_eq_none]
    rfl

/-- The container is asked by name for the training code only if that is
justified. -/
theorem justified_of_path_run {n : Nat} {place : UInt64} {area area' : Buffer n}
    {result : Except (Stop Error) Table} (hverified : config.verifiedBoot = true)
    (h : (run config registry place).Path area steps result area') :
    Throughout (fun before step => step.query.NamesImage →
      ∃ code, config.training = some code ∧
        Image.Justified registry code.stage .raw before step.query) steps := by
  rcases path_run h with
    ⟨-, rfl, -⟩ | ⟨code, forImage, located, rest, hcode, hlocate, rfl, hrest, -⟩
  · exact throughout_nil
  · refine throughout_append ?_ (throughout_of_not hrest)
    intro before step after hsplit hnames
    exact ⟨code, hcode,
      Image.justified_of_path_locate hverified hlocate before step after hsplit hnames⟩

/-- Training code that may not be unverified is read from exactly its slot. -/
theorem verified_of_path_run {n : Nat} {place : UInt64} {area area' : Buffer n} {table : Table}
    (hverified : config.verifiedBoot = true) (hcode : config.training = some code)
    (hforbidden : code.stage.fallback = .forbidden)
    (h : (run config registry place).Path area steps (.ok table) area') :
    ∃ slot, registry.Keeps code.stage.index slot ∧
      seen Query.read? steps = [(slot.address, slot.size.toNat)] := by
  rcases path_run h with
    ⟨-, -, ⟨⟩⟩ | ⟨code', forImage, located, rest, hcode', hlocate, rfl, -, hreads⟩
  obtain rfl := Option.some.inj (hcode.symm.trans hcode')
  obtain ⟨region, rfl, hread⟩ := hreads table rfl
  obtain ⟨slot, hkeeps, rfl⟩ := Image.path_locate_of_forbidden hverified hforbidden hlocate
  refine ⟨slot, hkeeps, ?_⟩
  have hlocated : seen Query.read? forImage = [] :=
    (Image.asks_locate _ _ _).seen_eq_nil hlocate fun _ h => h.keepsMemory.read
  rw [seen_append, hlocated, hread]
  rfl

end Training
end BootHandoff

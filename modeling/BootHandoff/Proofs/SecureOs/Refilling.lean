/-
# Filling a block again

Filling starts from a block of zeros, so what the block and the arguments held
before decides nothing: `Fills.relocate` takes a course of one filling and shows
the course of another one, with its block elsewhere and other contents before.
Only the last step differs, which cleans the block where it lies.

On a platform whose registers read back what was written to them, filling also
leaves the registers as it found them (`Fills.file_after`).  So after any number of
fillings, there or elsewhere, however they ended, the next filling is again like the
first.
-/

import BootHandoff.Proofs.ChipId.Restoring
import BootHandoff.Proofs.Platform.Registers
import BootHandoff.Proofs.SecureOs.Course

namespace BootHandoff
namespace SecureOs

open Board Platform

/-- Two fillings that came out the same, one with its block at `place` and one
at `elsewhere`. -/
structure Alike {σ : Type} (place elsewhere : UInt64)
    (r r' : Outcome σ (Except (Stop BootError) Unit × Filling)) : Prop where
  result_eq : r'.value.1 = r.value.1
  block_eq : r'.value.2.block = r.value.2.block
  args_eq : r.value.1 = .ok () →
    r'.value.2.args.x0 = r.value.2.args.x0 ∧ r'.value.2.args.x1 = r.value.2.args.x1 ∧
    r'.value.2.args.x3 = r.value.2.args.x3 ∧
    r.value.2.args.x2 = place ∧ r'.value.2.args.x2 = elsewhere

section

variable {decoder : KeyStore.Decoder} {σ : Type} {m : Machine σ} {u : σ} {place : UInt64}
  {config : BootConfig} {args : Abi.ArgRegs} {steps : List Step}
  {result : Except (Stop BootError) Unit} {t : Filling}

/-- **A filling elsewhere takes the same course** on the same answers. -/
theorem Fills.relocate (h : Fills decoder place config args steps result t) (elsewhere : UInt64)
    (args' : Abi.ArgRegs) :
    ∃ steps' t', Fills decoder elsewhere config args' steps' result t' ∧ t'.block = t.block ∧
      (m.Answers u steps → m.Answers u steps') ∧
      (result = .ok () → t'.args.x0 = t.args.x0 ∧ t'.args.x1 = t.args.x1 ∧
        t'.args.x3 = t.args.x3 ∧ t.args.x2 = place ∧ t'.args.x2 = elsewhere) := by
  cases h with
  | unreported e => exact ⟨_, _, .unreported e, rfl, id, nofun⟩
  | unbounded hstop => exact ⟨_, _, .unbounded hstop, rfl, id, nofun⟩
  | @unplaced tz stop e hstop hplace =>
    exact ⟨_, _, .unplaced hstop hplace, rfl, id, nofun⟩
  | unsurveyed hbounds hid hsurvey =>
    exact ⟨_, _, .unsurveyed hbounds hid hsurvey, rfl, id, nofun⟩
  | halted hbounds hid hsurvey hkey =>
    exact ⟨_, _, .halted hbounds hid hsurvey hkey, rfl, id, nofun⟩
  | complete hbounds hid hsurvey hkey hstore =>
    refine ⟨_, _, .complete hbounds hid hsurvey hkey hstore, rfl, ?_,
      fun _ => ⟨rfl, rfl, rfl, rfl, rfl⟩⟩
    simp only [completing, Machine.Answers, Machine.answers_append]
    rintro ⟨htz, hforId, hforSurvey, hforKey, hforStore, -⟩
    exact ⟨htz, hforId, hforSurvey, hforKey, hforStore, trivial, trivial⟩

/-- On one platform, from one state, every filling comes out the same. -/
theorem alike_of_fill (m : Machine σ) (u : σ) (config : BootConfig) (s s' : Filling)
    (place elsewhere : UInt64) :
    Alike place elsewhere (((fill decoder place config).on s).run m u)
      (((fill decoder elsewhere config).on s').run m u) := by
  have hfills := path_iff_fills.1 (Action.path_run m (fill decoder place config) s u)
  obtain ⟨steps', t', hfills', hblock, hanswers, hargs⟩ := hfills.relocate elsewhere s'.args
  have hrun := Firmware.run_eq_of_path hfills'.path (hanswers (Firmware.answers_run m _ u))
  rw [hrun]
  exact ⟨rfl, hblock, hargs⟩

end

section

variable {decoder : KeyStore.Decoder} {place : UInt64} {config : BootConfig}
  {args : Abi.ArgRegs} {steps : List Step} {result : Except (Stop BootError) Unit} {t : Filling}

/-- The registers have a share in filling only while the chip's id is read. -/
theorem Fills.history_registers (h : Fills decoder place config args steps result t) :
    Part.registers.history steps = [] ∨
      ∃ uid, (ChipId.readUid : Task BootError _).Path (Part.registers.history steps) (.ok uid) := by
  cases h with
  | unreported e => exact .inl rfl
  | unbounded hstop => exact .inl rfl
  | unplaced hstop hplace => exact .inl rfl
  | @unsurveyed tz _ _ identifying surveying uid _ _ hbounds hid hsurvey =>
    have hshare : Part.registers.history
        (⟨.carveout .tz, .ok tz⟩ :: (identifying ++ surveying)) = identifying := by
      simp [(only_registers hid).history, hsurvey.only.history, Query.part]
    exact .inr ⟨uid, hshare.symm ▸ hid⟩
  | @halted tz _ _ identifying surveying reading uid _ _ hbounds hid hsurvey hkey =>
    have hshare : Part.registers.history
        (⟨.carveout .tz, .ok tz⟩ :: (identifying ++ (surveying ++ reading))) = identifying := by
      simp [(only_registers hid).history, hsurvey.only.history, (only_flash hkey).history,
        Query.part]
    exact .inr ⟨uid, hshare.symm ▸ hid⟩
  | @complete tz _ _ _ _ _ _ uid _ _ _ _ _ hbounds hid hsurvey hkey hstore =>
    exact .inr ⟨uid, (history_completing place tz _ hid hsurvey hkey hstore .registers).symm ▸ hid⟩

/-- **Filling leaves the registers as they were**, however it ends. -/
theorem Fills.file_after {σ : Type} {m : Machine σ} {file : σ → RegisterFile} {u : σ}
    (h : Fills decoder place config args steps result t) (hreads : ReadsBack m file)
    (hanswers : m.Answers u steps) : file (m.after u steps) = file u := by
  have hshare := hreads.answers_history Bench.absent hanswers
  rw [hreads.file_after Bench.absent]
  rcases h.history_registers with hnone | ⟨uid, hid⟩
  · rw [hnone]
    rfl
  · exact ChipId.after_readUid hid hshare

end

/-- A filling of a block that may have been filled before: on the platform at
hand, or on another one. -/
inductive Turn : Type 1 where
  | here (place : UInt64) (config : BootConfig)
  | elsewhere (σ : Type) (m : Machine σ) (u : σ) (place : UInt64) (config : BootConfig)

/-- The registers of the platform at hand, and the block with the arguments,
after one more filling, however it ended. -/
def Turn.after (decoder : KeyStore.Decoder) (answers : (q : Query) → q.Answer)
    (now : RegisterFile × Filling) : Turn → RegisterFile × Filling
  | .here place config =>
    let r := ((fill decoder place config).on now.2).run (steady answers) now.1
    (r.state, r.value.2)
  | .elsewhere _ m u place config =>
    (now.1, (((fill decoder place config).on now.2).run m u).value.2)

variable {decoder : KeyStore.Decoder} {answers : (q : Query) → q.Answer}

/-- Filling leaves the registers as they were. -/
theorem state_fill (file : RegisterFile) (s : Filling) (place : UInt64) (config : BootConfig) :
    (((fill decoder place config).on s).run (steady answers) file).state = file := by
  have hfills := path_iff_fills.1
    (Action.path_run (steady answers) (fill decoder place config) s file)
  rw [Firmware.state_run]
  exact hfills.file_after (readsBack_steady answers) (Firmware.answers_run _ _ _)

theorem Turn.after_fst (now : RegisterFile × Filling) (turn : Turn) :
    (turn.after decoder answers now).1 = now.1 := by
  cases turn with
  | here place config => exact state_fill now.1 now.2 place config
  | elsewhere σ m u place config => rfl

/-- However often a block was filled, the registers are as they were at first. -/
theorem foldl_after_fst (now : RegisterFile × Filling) (turns : List Turn) :
    (turns.foldl (Turn.after decoder answers) now).1 = now.1 := by
  induction turns generalizing now with
  | nil => rfl
  | cons turn rest ih => exact (ih _).trans (turn.after_fst now)

/-- **Nothing of an earlier filling survives.**  On any platform, what a block
and the arguments held before makes no difference to how filling ends and to what
the block holds then, nor do they to the arguments that a filling that succeeds
sets, but for the address of the block.  And on a platform whose registers read
back what was written to them and whose other parts always answer the same, a
filling after any number of others, there or on other platforms, however they
ended, comes out like the first one and leaves the registers as they were. -/
theorem alike_of_refilling (decoder : KeyStore.Decoder) (config : BootConfig)
    (s s' : Filling) (place elsewhere : UInt64) :
    (∀ {σ : Type} (m : Machine σ) (u : σ),
      Alike place elsewhere (((fill decoder place config).on s).run m u)
        (((fill decoder elsewhere config).on s').run m u)) ∧
    ∀ (answers : (q : Query) → q.Answer) (file : RegisterFile) (turns : List Turn),
      let now := turns.foldl (Turn.after decoder answers) (file, s')
      let first := ((fill decoder place config).on s).run (steady answers) file
      let again := ((fill decoder elsewhere config).on now.2).run (steady answers) now.1
      Alike place elsewhere first again ∧ first.state = file ∧ again.state = file := by
  refine ⟨fun m u => alike_of_fill m u config s s' place elsewhere, ?_⟩
  intro answers file turns now first again
  have hfile : now.1 = file := foldl_after_fst (file, s') turns
  refine ⟨?_, state_fill file s place config, (state_fill now.1 now.2 elsewhere config).trans hfile⟩
  have halike : Alike place elsewhere first
      (((fill decoder elsewhere config).on now.2).run (steady answers) file) :=
    alike_of_fill (steady answers) file config s now.2 place elsewhere
  unfold again
  rw [hfile]
  exact halike

end SecureOs
end BootHandoff

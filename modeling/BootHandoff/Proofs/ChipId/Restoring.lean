/-
# Reading the fuses leaves the registers as they were

The fuses can only be read while a bit of the clock controller makes them
visible.  Reading sets the bit if it was clear and then clears it again, so on a
platform whose registers read back what was written to them, every register ends
as it began.
-/

import BootHandoff.ChipId.Pack
import BootHandoff.Proofs.Platform.Replay

namespace BootHandoff
namespace ChipId

open Platform

/-- Making the fuses visible and hiding them again brings back the value of a
register in which they were hidden. -/
theorem withVisibility_false_true {value : UInt32} (h : ¬(value >>> visibleShift) &&& 1 = 1) :
    withVisibility false (withVisibility true value) = value := by
  have hhidden : value.toBitVec.getLsbD 28 = false := by
    by_contra hvisible
    refine h (UInt32.eq_of_toBitVec_eq (BitVec.eq_of_getLsbD_eq fun i hi => ?_))
    have hfirst : i = 0 → value.toBitVec.getLsbD (28 + i) = true := by
      rintro rfl
      exact eq_true_of_ne_false hvisible
    simpa [visibleShift] using hfirst
  have hflag : ∀ i < 32, (268435456#32).getLsbD i = decide (i = 28) := by decide
  have hrest : ∀ i < 32, (4026531839#32).getLsbD i = !decide (i = 28) := by decide
  refine UInt32.eq_of_toBitVec_eq (BitVec.eq_of_getLsbD_eq fun i hi => ?_)
  have hclear : (value.toBitVec.getLsbD i && !decide (i = 28)) = value.toBitVec.getLsbD i := by
    by_cases hbit : i = 28
    · rw [hbit, hhidden]
      rfl
    · rw [decide_eq_false hbit, Bool.not_false, Bool.and_true]
  simpa [withVisibility, visibleShift, hflag i hi, hrest i hi, Bool.and_or_distrib_right]
    using hclear

variable {answers : (q : Query) → q.Answer} {file : RegisterFile}

theorem state_readAll : (readAll.run (steady answers) file).state = file := rfl

theorem state_setVisibility (visible : Bool) :
    ((setVisibility visible).run (steady answers) file).state =
      Function.update file clockMisc (withVisibility visible (file clockMisc)) := rfl

/-- **Reading the fuses leaves the registers as they were.** -/
theorem state_readFuses : (readFuses.run (steady answers) file).state = file := by
  unfold readFuses
  rw [Firmware.run_bind]
  show ((if (file clockMisc >>> visibleShift) &&& 1 = 1 then readAll else _).run _ file).state = _
  split
  · exact state_readAll
  · rename_i hhidden
    simp only [Firmware.run_bind, Firmware.run_pure]
    rw [state_setVisibility, state_readAll, state_setVisibility, Function.update_self,
      withVisibility_false_true hhidden, Function.update_idem, Function.update_eq_self]

/-- A reading of the chip's id that such a platform answers leaves its registers
as they were. -/
theorem after_readUid {ε : Type} {steps : List Step} {result : Except (Stop ε) Uid}
    (h : (readUid : Task ε Uid).Path steps result)
    (hanswers : (steady answers).Answers file steps) :
    (steady answers).after file steps = file := by
  obtain ⟨first, rest, fuses, rfl, hfuses, hpack⟩ := Task.path_lift_bind_iff.1 h
  obtain ⟨rfl, -⟩ := Task.path_check_iff.1 hpack
  rw [List.append_nil] at hanswers ⊢
  have hrun := Firmware.run_eq_of_path hfuses hanswers
  exact (congrArg Outcome.state hrun).symm.trans state_readFuses

end ChipId
end BootHandoff

/-
# What reading the fuses does to the registers

The fuse registers show the fuses only while a bit of the clock controller is set, so
reading the fuses may have to set the bit and clear it again:

| the bit before | steps |
| --- | --- |
| set | a look at the bit, each fuse |
| clear | the same look, a write that sets the bit, each fuse, a write that clears it |

A write changes the register from what it holds at that moment, and of that only the one
bit (`Discreet`).  The steps are known on a steady platform (`steps_readFuses`), and
reading the fuses asks nothing but the registers, so they are the same on every platform
whose registers read back what was last written (`registers_of_readFuses`).
-/

import BootHandoff.Proofs.ChipId.Numbering
import BootHandoff.Proofs.Platform.Registers
import BootHandoff.Proofs.Platform.Trace
import BootHandoff.Proofs.SecureOs.Filling

namespace BootHandoff

open Platform

/-- The registers that are read, by address. -/
def Platform.Query.registerRead? : Query → Option UInt64
  | .readRegister address => some address
  | _ => none

/-- The registers that are written, by address and value. -/
def Platform.Query.registerWrite? : Query → Option (UInt64 × UInt32)
  | .writeRegister address value => some (address, value)
  | _ => none

namespace ChipId

variable {answers : (q : Query) → q.Answer} {file : RegisterFile}

/-- The address at which a fuse is read. -/
def Fuse.address (f : Fuse) : UInt64 := fuseBlock + f.register.offset

/-- The fuse registers show the fuses. -/
def Visible (file : RegisterFile) : Prop := (file clockMisc).toNat.testBit 28 = true

instance : DecidablePred Visible := fun _ => inferInstanceAs (Decidable (_ = _))

/-- A step for the registers is discreet if it reads a fuse only while the fuses are
visible, and writes nothing but their visibility. -/
structure Discreet (now : RegisterFile) (step : Step) : Prop where
  reads : ∀ f : Fuse, step.query = .readRegister f.address → Visible now
  writes : ∀ address value, step.query = .writeRegister address value →
    address = clockMisc ∧
      ∀ bit, bit ≠ 28 → value.toNat.testBit bit = (now address).toNat.testBit bit

/-- The bit that is looked at is the one that makes the fuses visible. -/
theorem visible_iff {value : UInt32} :
    (value >>> visibleShift) &&& 1 = 1 ↔ value.toNat.testBit 28 = true := by
  rw [← UInt32.toNat_inj, UInt32.toNat_and, UInt32.toNat_shiftRight]
  show value.toNat >>> 28 &&& 1 = 1 ↔ _
  rw [Nat.testBit, bne_iff_ne, Nat.and_comm, Nat.one_and_eq_mod_two]
  omega

/-- Changing the visibility changes one bit. -/
theorem testBit_withVisibility (visible : Bool) (value : UInt32) (bit : Nat) :
    (withVisibility visible value).toNat.testBit bit =
      if bit = 28 then visible else value.toNat.testBit bit := by
  have hmask : ∀ bit < 32, (0xefffffff).testBit bit = !decide (bit = 28) := by decide
  have hflag : ((if visible then 1 else 0) <<< visibleShift : UInt32).toNat.testBit bit =
      (visible && decide (bit = 28)) := by
    cases visible
    · simp [visibleShift]
    · show (2 ^ 28).testBit bit = _
      rw [Nat.testBit_two_pow]
      simp [eq_comm]
  have hcleared : (value.toNat &&& 0xefffffff).testBit bit =
      (value.toNat.testBit bit && !decide (bit = 28)) := by
    rw [Nat.testBit_and]
    by_cases hbit : bit < 32
    · rw [hmask bit hbit]
    · have hvalue : value.toNat < 2 ^ bit :=
        Nat.lt_of_lt_of_le value.toNat_lt (Nat.pow_le_pow_right (by decide) (Nat.not_lt.1 hbit))
      rw [Nat.testBit_lt_two_pow hvalue, Bool.false_and, Bool.false_and]
  unfold withVisibility
  rw [UInt32.toNat_or, Nat.testBit_or, hflag, UInt32.toNat_and,
    show (~~~(1 <<< visibleShift) : UInt32).toNat = 0xefffffff from rfl, hcleared]
  by_cases hbit : bit = 28 <;> simp [hbit]

/-- The registers with the fuses made visible, or hidden. -/
def withVisible (visible : Bool) (file : RegisterFile) : RegisterFile :=
  Function.update file clockMisc (withVisibility visible (file clockMisc))

/-- The step in which a register is read. -/
def reading (file : RegisterFile) (address : UInt64) : Step :=
  ⟨.readRegister address, file address⟩

/-- The steps in which each fuse is read. -/
def readings (file : RegisterFile) : List Step := Fuse.all.map fun f => reading file f.address

/-- The steps in which the fuses are made visible, or hidden. -/
def switching (visible : Bool) (file : RegisterFile) : List Step :=
  [reading file clockMisc,
    ⟨.writeRegister clockMisc (withVisibility visible (file clockMisc)), ()⟩]

/-- **The steps in which the fuses are read.** -/
theorem steps_readFuses (file : RegisterFile) :
    (readFuses.run (steady answers) file).steps =
      reading file clockMisc ::
        if Visible file then readings file
        else switching true file ++ (readings (withVisible true file) ++
          switching false (withVisible true file)) := by
  show reading file clockMisc ::
    ((if (file clockMisc >>> visibleShift) &&& 1 = 1 then readAll else _).run
      (steady answers) file).steps = _
  simp only [visible_iff]
  show _ :: (Firmware.run _ (if Visible file then _ else _) _).steps = _
  split <;> rfl

theorem visible_withVisible (file : RegisterFile) : Visible (withVisible true file) := by
  unfold Visible withVisible
  rw [Function.update_self, testBit_withVisibility, if_pos rfl]

theorem keepsRegisters_of_mem_readings {step : Step} (h : step ∈ readings file) :
    step.query.KeepsRegisters := by
  obtain ⟨f, -, rfl⟩ := List.mem_map.1 h
  trivial

/-- Looking at the clock controller is discreet. -/
theorem discreet_reading_clockMisc (now : RegisterFile) : Discreet now (reading file clockMisc) :=
  ⟨fun f h => absurd (Query.readRegister.inj h).symm f.address_ne_clockMisc, nofun⟩

/-- Reading the fuses is discreet while they are visible. -/
theorem discreet_of_mem_readings {now : RegisterFile} (hvisible : Visible now) {step : Step}
    (h : step ∈ readings file) : Discreet now step := by
  obtain ⟨f, -, rfl⟩ := List.mem_map.1 h
  exact ⟨fun _ _ => hvisible, nofun⟩

theorem along_readings (hvisible : Visible file) :
    (steady answers).Along Discreet file (readings file) :=
  along_of_keeps (fun _ => keepsRegisters_of_mem_readings)
    fun _ => discreet_of_mem_readings hvisible

/-- Switching the visibility is discreet. -/
theorem along_switching (visible : Bool) (file : RegisterFile) :
    (steady answers).Along Discreet file (switching visible file) := by
  refine ⟨discreet_reading_clockMisc file, ⟨nofun, ?_⟩, trivial⟩
  rintro _ _ ⟨⟩
  refine ⟨rfl, fun bit hbit => ?_⟩
  show (withVisibility visible (file clockMisc)).toNat.testBit bit = _
  rw [testBit_withVisibility, if_neg hbit]
  rfl

/-- **Every step in which the fuses are read is discreet.** -/
theorem along_readFuses (file : RegisterFile) :
    (steady answers).Along Discreet file (readFuses.run (steady answers) file).steps := by
  rw [steps_readFuses]
  refine ⟨discreet_reading_clockMisc file, ?_⟩
  show (steady answers).Along Discreet file _
  split
  · rename_i hvisible
    exact along_readings hvisible
  · refine Machine.along_append.2 ⟨along_switching true file, Machine.along_append.2 ⟨?_, ?_⟩⟩
    · exact along_readings (visible_withVisible file)
    · show (steady answers).Along Discreet
        ((steady answers).after (withVisible true file) (readings (withVisible true file))) _
      rw [steady_after_of_keeps fun _ => keepsRegisters_of_mem_readings]
      exact along_switching false (withVisible true file)

/-- Each fuse is read once. -/
theorem count_readFuses (file : RegisterFile) (f : Fuse) :
    (seen Query.registerRead? (readFuses.run (steady answers) file).steps).count f.address = 1 := by
  rw [steps_readFuses]
  split
  · show (clockMisc :: Fuse.all.map Fuse.address).count f.address = 1
    cases f <;> decide
  · show (clockMisc :: clockMisc :: (Fuse.all.map Fuse.address ++ [clockMisc])).count f.address = 1
    cases f <;> decide

/-- The clock controller is written twice if the fuses were hidden, and nothing is
written if they were visible. -/
theorem writes_readFuses (file : RegisterFile) :
    (seen Query.registerWrite? (readFuses.run (steady answers) file).steps).map Prod.fst =
      if Visible file then [] else [clockMisc, clockMisc] := by
  rw [steps_readFuses]
  split <;> rfl

/-- **Reading the fuses leaves the registers as they were, and on the way is discreet.**  On
a platform whose registers read back what was last written to them, whatever they hold and
whatever else the platform does: each fuse is read as it is burned; every register is at
the end what it was before; the register of each fuse is read exactly once; if the fuses
were visible nothing is written, and otherwise the clock controller twice and nothing
else; and each step is discreet at its moment: fuses are read only while they are visible,
and a write changes no bit but the one that makes them so. -/
theorem registers_of_readFuses {σ : Type} {m : Machine σ} {file : σ → RegisterFile}
    (h : ReadsBack m file) (u : σ) :
    let r := readFuses.run m u
    let writes := seen Query.registerWrite? r.steps
    (∀ f, (r.value.value f).toNat = burned (file u) f) ∧ file r.state = file u ∧
      (∀ f : Fuse, (seen Query.registerRead? r.steps).count f.address = 1) ∧
      writes.map Prod.fst = (if Visible (file u) then [] else [clockMisc, clockMisc]) ∧
      m.Along (fun now => Discreet (file now)) u r.steps := by
  intro r writes
  have hasks : readFuses.Asks fun q => q.part = .registers := fun steps fuses hpath step hstep =>
    (SecureOs.asks_readFuses steps fuses hpath step hstep).2
  have hrun := h.run_eq Bench.absent hasks u
  have hvalue : (readFuses.run (steady Bench.absent) (file u)).value = r.value :=
    congrArg Outcome.value hrun
  have hstate : (readFuses.run (steady Bench.absent) (file u)).state = file r.state :=
    congrArg Outcome.state hrun
  have hsteps : (readFuses.run (steady Bench.absent) (file u)).steps = r.steps :=
    congrArg Outcome.steps hrun
  refine ⟨fun f => ?_, ?_, fun f => ?_, ?_, ?_⟩
  · rw [← hvalue]
    exact toNat_value_readFuses f
  · rw [← hstate]
    exact state_readFuses
  · rw [← hsteps]
    exact count_readFuses (file u) f
  · unfold writes
    rw [← hsteps]
    exact writes_readFuses (file u)
  · refine h.along Bench.absent (hasks _ _ (Firmware.path_run m readFuses u)) ?_
    rw [← hsteps]
    exact along_readFuses (file u)

/-- The hypothesis is satisfiable: a bench on which the fuses are hidden and the register
of one has bits that do not count. -/
theorem registers_of_readFuses_on_bench :
    let r : Bench.Rig :=
      { Bench.Rig.standard with
        registers := ⟨[(clockMisc, 4), (Fuse.vendorCode.address, 0xfffffff5)]⟩ }
    let run := readFuses.run Bench.Rig.machine r
    ReadsBack Bench.Rig.machine (fun r => r.registers.read) ∧
      ¬Visible r.registers.read ∧ (run.value.value .vendorCode).toNat = 5 ∧
      run.state.registers.read = r.registers.read ∧
      (seen Query.registerRead? run.steps).count Fuse.vendorCode.address = 1 ∧
      (seen Query.registerWrite? run.steps).map Prod.fst = [clockMisc, clockMisc] ∧
      Bench.Rig.machine.Along (fun now => Discreet now.registers.read) r run.steps := by
  intro r run
  have hhidden : ¬Visible r.registers.read := by decide
  obtain ⟨hvalue, hstate, hreads, hwrites, halong⟩ := registers_of_readFuses Bench.Rig.readsBack r
  rw [if_neg hhidden] at hwrites
  exact ⟨Bench.Rig.readsBack, hhidden, (hvalue .vendorCode).trans (by decide), hstate,
    hreads .vendorCode, hwrites, halong⟩

end ChipId
end BootHandoff

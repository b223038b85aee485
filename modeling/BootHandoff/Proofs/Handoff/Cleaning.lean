/-
# Everything the secure monitor reads was written out

When the handoff jumps, the MMU is off and nobody will write the cache out any
more: the secure monitor finds what was cleaned before, as it was then.
`cleaned_before_enterMonitor` says that this is right.  The blocks that the
jump leads to were all cleaned, in a fixed order, and none has changed since.
-/

import BootHandoff.Proofs.Bench.Steady
import BootHandoff.Proofs.Handoff.Ending
import BootHandoff.Proofs.Handoff.Footprint
import BootHandoff.Proofs.Layout.Faithful

namespace BootHandoff
namespace Handoff

open Abi Bench Platform SecureOs Verified

variable {decoder : KeyStore.Decoder} {registry : Registry} {payload : Payload} {c t : Context}
  {steps : List Step}

namespace Context

/-- The blocks that a handoff writes out before it jumps, in order. -/
def cleanedBlocks (c : Context) : List Block :=
  (if c.config.secureOs.isSome then c.extensionBlocks ++ [c.secureOsBlock] else []) ++
    [c.paramsBlock, c.payloadBlock]

/-- The parameters of the secure monitor point at the entry point of the secure
OS. -/
def PointsAtSecureOs (c : Context) : Prop :=
  c.monitorParams.secureOsEntry = c.secureOsBlock.address ∧ c.monitorParams.secureOsEntry ≠ 0

/-- The blocks that the secure monitor comes to from the address of its
parameters: the parameters, the entry points that they point at, and the boot
block that the arguments of the secure OS point at. -/
inductive Reaches (c : Context) : Block → Prop where
  | params : Reaches c c.paramsBlock
  | payload (h : c.monitorParams.payloadEntry = c.payloadBlock.address) :
      Reaches c c.payloadBlock
  | secureOs (h : c.PointsAtSecureOs) : Reaches c c.secureOsBlock
  | boot {block : Block} (h : c.PointsAtSecureOs) (hblock : block ∈ c.extensionBlocks)
      (hargs : blockPlace? c.secureOsEntry.args = some block.address) : Reaches c block

/-- What is reached does not depend on the phase. -/
theorem Reaches.of_phase {phase : Phase} {block : Block}
    (h : Reaches { c with phase := phase } block) : c.Reaches block := by
  cases h with
  | params => exact .params
  | payload h => exact .payload h
  | secureOs h => exact .secureOs h
  | boot h hblock hargs => exact .boot h hblock hargs

theorem memory_eq (c : Context) :
    c.memory = c.extensionBlocks ++ [c.secureOsBlock, c.paramsBlock, c.payloadBlock] := rfl

theorem cleanedBlocks_subset_memory (c : Context) : c.cleanedBlocks ⊆ c.memory := by
  unfold cleanedBlocks
  rw [memory_eq]
  split <;> simp

theorem length_extensionBlock {block : Block} (h : block ∈ c.extensionBlocks) :
    block.bytes.length = 6240 := by
  unfold extensionBlocks at h
  split at h
  · obtain rfl := List.mem_singleton.1 h
    exact BootBlock.faithful_layout.length_write _
  · cases h

theorem length_secureOsBlock (c : Context) : c.secureOsBlock.bytes.length = 88 :=
  EntryPoint.faithful_layout.length_write _

theorem length_paramsBlock (c : Context) : c.paramsBlock.bytes.length = 48 :=
  MonitorParams.faithful_layout.length_write _

theorem length_payloadBlock (c : Context) : c.payloadBlock.bytes.length = 88 :=
  EntryPoint.faithful_layout.length_write _

end Context

/-- The board's addition is cleaned as it is then left. -/
theorem Adjusts.processor (h : Adjusts decoder c steps (.ok ()) t) :
    seen Query.processor? steps = t.extensionBlocks.map .clean := by
  cases h with
  | plain hextension =>
    unfold Context.extensionBlocks
    rw [hextension]
    rfl
  | filled hextension hfill =>
    rcases path_fill hfill with
      ⟨tz, stop, base, gathered, -, rfl, hgathered, -⟩ | ⟨stop, ⟨⟩, -⟩
    have hnone : seen Query.processor? gathered = [] :=
      seen_eq_nil fun step hstep => (hgathered step hstep).processor?_eq_none
    simp only [seen_cons, seen_append, hnone]
    rfl

/-- What a preparation leaves as it was told: the configuration, and where its
structures lie. -/
theorem Course.keeps {result : Except (Stop BootError) Jump}
    (h : Course decoder registry payload c steps result t) :
    t.config = c.config ∧ t.places = c.places ∧
      t.extensionBlocks.map Block.address = c.extensionBlocks.map Block.address := by
  have hadjusts : ∀ {pc adjusting end' u}, Adjusts decoder (c.describing pc) adjusting end' u →
      u.config = c.config ∧ u.places = c.places ∧
        u.extensionBlocks.map Block.address = c.extensionBlocks.map Block.address := by
    intro pc adjusting end' u hadjust
    cases hadjust with
    | plain hextension => exact ⟨rfl, rfl, rfl⟩
    | filled hextension hfill =>
      refine ⟨rfl, rfl, ?_⟩
      unfold Context.extensionBlocks
      rw [show c.extension = _ from hextension]
      rfl
  cases h with
  | late hphase => exact ⟨rfl, rfl, rfl⟩
  | noMonitor hphase hmonitor => exact ⟨rfl, rfl, rfl⟩
  | noSecureOs hphase hmonitor hsome hload => exact ⟨rfl, rfl, rfl⟩
  | notAdjusted hphase hmonitor hsome hload hadjust => exact hadjusts hadjust
  | alone hphase hmonitor hnone ht => rw [ht]; exact ⟨rfl, rfl, rfl⟩
  | complete hphase hmonitor hsome hload hadjust ht =>
    obtain ⟨hconfig, hplaces, hblocks⟩ := hadjusts hadjust
    rw [ht]
    exact ⟨hconfig, hplaces, hblocks⟩

/-- **What a preparation asks of the processor:** to write out its blocks. -/
theorem Course.processor {jump : Jump} (h : Course decoder registry payload c steps (.ok jump) t) :
    seen Query.processor? steps = t.cleanedBlocks.map .clean := by
  have hconfig := h.keeps.1
  unfold Context.cleanedBlocks
  rw [hconfig]
  cases h with
  | alone hphase hmonitor hnone ht =>
    rw [hnone]
    simp only [seen_cons, seen_append, processor_of_load hmonitor]
    rfl
  | complete hphase hmonitor hsome hload hadjust ht =>
    rename_i u
    have hextension : t.extensionBlocks = u.extensionBlocks := by rw [ht]; rfl
    rw [hsome, hextension, Option.isSome_some, if_pos rfl, List.append_assoc, List.map_append]
    simp only [seen_cons, seen_append, processor_of_load hmonitor, processor_of_loadSecureOs hload,
      hadjust.processor]
    rfl

/-- **Everything that a prepared handoff leads to was written out.** -/
theorem Course.mem_cleanedBlocks {jump : Jump} {block : Block}
    (h : Course decoder registry payload c steps (.ok jump) t) (hblock : t.Reaches block) :
    block ∈ t.cleanedBlocks := by
  have hconfig := h.keeps.1
  unfold Context.cleanedBlocks
  rw [hconfig]
  cases h with
  | alone hphase hmonitor hnone ht =>
    have hzero : t.monitorParams.secureOsEntry = 0 := by rw [ht]; rfl
    rw [hnone]
    cases hblock with
    | params => simp
    | payload h => simp
    | secureOs h => exact absurd hzero h.2
    | boot h hblock hargs => exact absurd hzero h.2
  | complete hphase hmonitor hsome hload hadjust ht =>
    rw [hsome]
    cases hblock with
    | params => simp
    | payload h => simp
    | secureOs h => simp
    | boot h hblock hargs => simp [hblock]

theorem Course.jump_eq {jump : Jump} (h : Course decoder registry payload c steps (.ok jump) t) :
    jump.params = c.places.monitorParams ∧ jump.platformParams = 0 := by
  cases h <;> exact ⟨rfl, rfl⟩

theorem not_enterMonitor_of_prepares {entry x0 x1 : UInt64} {memory : List Block} :
    ¬(Loads (.enterMonitor entry x0 x1 memory) ∨ Assembles (.enterMonitor entry x0 x1 memory)) := by
  rintro ((⟨⟨⟩⟩ | ⟨⟨⟩⟩ | ⟨⟨⟩⟩) | (⟨⟨⟩⟩ | ⟨_, ⟨⟩⟩))

/-- A handoff that enters the secure monitor was prepared, and did nothing to
its structures since. -/
theorem path_run_of_enterMonitor {halt : Halt} {entry x0 x1 : UInt64} {memory : List Block}
    {answer : Unit} (hcustom : c.extension ≠ .custom)
    (h : Firmware.Path ((run decoder registry payload).run c) steps (halt, t))
    (hjump : (⟨.enterMonitor entry x0 x1 memory, answer⟩ : Step) ∈ steps) :
    ∃ preparing u rest, Course decoder registry payload c preparing (.ok ⟨entry, x0, x1⟩) u ∧
      steps = preparing ++ rest ∧ memory = u.memory ∧ t = { u with phase := .transferControl } ∧
      seen Query.processor? rest = [.disableMmu, .enterMonitor entry x0 x1 memory] := by
  obtain ⟨preparing, result, u, rest, hcourse, rfl, hends⟩ := path_run hcustom h
  rcases List.mem_append.1 hjump with hpreparing | hrest
  · exact absurd (hcourse.asks _ hpreparing) not_enterMonitor_of_prepares
  · cases hends with
    | returned jump =>
      simp only [List.mem_cons, List.not_mem_nil, or_false, entered, logged, Step.mk.injEq,
        reduceCtorEq, false_and, false_or, Query.enterMonitor.injEq] at hrest
      obtain ⟨⟨rfl, rfl, rfl, rfl⟩, -⟩ := hrest
      exact ⟨preparing, u, _, hcourse, rfl, rfl, rfl, rfl⟩
    | failed e =>
      cases List.mem_singleton.1 hrest
    | halted h => cases hrest

/-- **Everything the secure monitor reads was written out.**  Whenever a
handoff enters the secure monitor, the processor was asked for exactly this, in
this order: to clean the boot block and the entry point of the secure OS, if
there is a secure OS; to clean the parameters and the entry point of the
payload; to turn the MMU off; and for this jump.  Memory at the jump holds every
one of these blocks as it was cleaned, and every block that the secure monitor
comes to from its first argument is among them. -/
theorem cleaned_before_enterMonitor {σ : Type} (m : Machine σ) (s : σ)
    (decoder : KeyStore.Decoder) (registry : Registry) (payload : Payload) (c : Context)
    (hcustom : c.extension ≠ .custom)
    {entry x0 x1 : UInt64} {memory : List Block} {answer : Unit}
    (hjump : (⟨.enterMonitor entry x0 x1 memory, answer⟩ : Step) ∈
      (((run decoder registry payload).run c).run m s).steps) :
    let r := ((run decoder registry payload).run c).run m s
    let ready := r.value.2
    seen Query.processor? r.steps =
      ready.cleanedBlocks.map .clean ++ [.disableMmu, .enterMonitor entry x0 x1 memory] ∧
    x0 = c.places.monitorParams ∧ x1 = 0 ∧ memory = ready.memory ∧
    (ready.config = c.config ∧ ready.places = c.places ∧
      ready.extensionBlocks.map Block.address = c.extensionBlocks.map Block.address) ∧
    ready.cleanedBlocks ⊆ memory ∧ (∀ block, ready.Reaches block → block ∈ ready.cleanedBlocks) ∧
    (∀ block ∈ ready.extensionBlocks, block.bytes.length = 6240) ∧
    ready.secureOsBlock.bytes.length = 88 ∧ ready.paramsBlock.bytes.length = 48 ∧
    ready.payloadBlock.bytes.length = 88 := by
  intro r ready
  obtain ⟨preparing, u, rest, hcourse, hsteps, hmemory, hready, hrest⟩ := path_run_of_enterMonitor
    hcustom (Firmware.path_run m ((run decoder registry payload).run c) s) hjump
  obtain ⟨hparams, hplatform⟩ := hcourse.jump_eq
  -- The phase is no part of any block.
  have hcleaned : ready.cleanedBlocks = u.cleanedBlocks := by rw [show ready = _ from hready]; rfl
  have hsame : ready.memory = u.memory := by rw [show ready = _ from hready]; rfl
  refine ⟨?_, hparams, hplatform, hmemory.trans hsame.symm, ?_, ?_, ?_, ?_,
    ready.length_secureOsBlock, ready.length_paramsBlock, ready.length_payloadBlock⟩
  · rw [show r.steps = preparing ++ rest from hsteps, seen_append, hcourse.processor, hrest,
      hcleaned]
  · rw [show ready = _ from hready]
    exact hcourse.keeps
  · rw [hmemory, ← hsame]
    exact ready.cleanedBlocks_subset_memory
  · intro block hblock
    rw [show ready = _ from hready] at hblock
    rw [hcleaned]
    exact hcourse.mem_cleanedBlocks hblock.of_phase
  · exact fun block hblock => Context.length_extensionBlock hblock

/-- The hypotheses are satisfiable: on the bench a handoff with a boot block enters
the secure monitor. -/
theorem cleaned_before_enterMonitor_on_bench :
    let c := Context.onBench (Rig.config false) (.tlk 0x4000 .zero)
    let r := ((run KeyStore.decodeOver .unavailable .onBench).run c).run Rig.machine Rig.stocked
    let ready := r.value.2
    c.extension ≠ .custom ∧
    ∃ memory, (⟨.enterMonitor 0x40000000 0x1000 0 memory, ()⟩ : Step) ∈ r.steps ∧
      seen Query.processor? r.steps = ready.cleanedBlocks.map .clean ++
        [.disableMmu, .enterMonitor 0x40000000 0x1000 0 memory] ∧
      ready.cleanedBlocks ⊆ memory ∧
      (∀ block, ready.Reaches block → block ∈ ready.cleanedBlocks) ∧
      ∀ block ∈ ready.extensionBlocks, block.bytes.length = 6240 := by
  intro c r ready
  have hcustom : c.extension ≠ .custom := nofun
  obtain ⟨memory, hjump⟩ :
      ∃ memory, (⟨.enterMonitor 0x40000000 0x1000 0 memory, ()⟩ : Step) ∈ r.steps := by
    unfold r c
    exact ⟨_, List.mem_of_getElem? (i := 45) rfl⟩
  obtain ⟨hprocessor, -, -, -, -, hcleaned, hreaches, hlength, -⟩ :=
    cleaned_before_enterMonitor Rig.machine Rig.stocked KeyStore.decodeOver .unavailable .onBench c
      hcustom hjump
  exact ⟨hcustom, memory, hjump, hprocessor, hcleaned, hreaches, hlength⟩

end Handoff
end BootHandoff

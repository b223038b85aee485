/-
# What each part of a handoff asks

A handoff loads, then assembles, then cleans, and each part keeps to its own
queries: loading never reaches the processor, and assembling neither asks for
an image nor touches memory.  What a part does not ask is not seen in its
steps.
-/

import BootHandoff.Proofs.Handoff.Course

namespace BootHandoff

open Platform

namespace SecureOs

variable {q : Query}

theorem Gathers.not_namesImage (h : Gathers q) : ¬q.NamesImage := by
  cases q <;> first | exact id | cases h

theorem Gathers.keepsMemory (h : Gathers q) : q.KeepsMemory := by
  cases q <;> first | exact ⟨rfl, rfl, rfl⟩ | cases h

theorem Gathers.processor?_eq_none (h : Gathers q) : q.processor? = none := by
  cases q <;> first | rfl | cases h

end SecureOs

namespace Handoff

open Abi Board Flash SecureOs Verified

variable {decoder : KeyStore.Decoder} {registry : Registry} {config : BootConfig}
  {stage : StageSpec} {c t : Context} {steps : List Step}

theorem Copied.asks {region : Region} {answer : Except DriverError Memory.MibRange}
    {result : Except (Stop BootError) UInt64} (h : Copied config region answer steps result) :
    ∀ step ∈ steps, Image.Copies step.query := by
  cases h with
  | unreported e => exact List.forall_mem_nil _
  | refused hplace => exact List.forall_mem_nil _
  | denied hplace e => exact List.forall_mem_singleton.2 trivial
  | failed hplace hcopy =>
    exact List.forall_mem_cons.2 ⟨trivial, Image.asks_copyToMemory _ _ _ _ _ hcopy⟩
  | stored hplace hcopy text =>
    exact List.forall_mem_cons.2 ⟨trivial, List.forall_mem_append.2
      ⟨Image.asks_copyToMemory _ _ _ _ _ hcopy, List.forall_mem_singleton.2 trivial⟩⟩

/-- **A copy that succeeds,** step by step: the memory behind the secure monitor
is granted, the whole region arrives, and what arrived is stored there. -/
theorem Copied.ok_cases {region : Region} {answer : Except DriverError Memory.MibRange}
    {pc : UInt64} (h : Copied config region answer steps (.ok pc)) :
    ∃ tz held area front text, answer = .ok tz ∧
      placement tz config.monitorSizeMib region.len.toUInt64 = .ok pc ∧
      steps = [⟨.window pc region.len.toUInt64, .ok held⟩,
        ⟨.readFlash region.offset region.len.toNat area, (region.len.toUInt64, front)⟩,
        ⟨.store pc front.bytes, ()⟩, logged .info text] := by
  cases h with
  | stored hplace hcopy text =>
    rename_i tz held copying
    rcases Image.path_copyToMemory hcopy with ⟨-, -, ⟨⟩⟩ | ⟨area, count, front, -, rfl, hcount⟩
    obtain rfl := Image.readResult_eq_ok_iff.1 hcount.symm
    exact ⟨tz, held, area, front, text, rfl, hplace, rfl⟩

/-- The queries of loading a secure OS in one way or the other. -/
def Loads (q : Query) : Prop := Image.Fetches q ∨ q = .carveout .tz ∨ Image.Copies q

theorem asks_copySecureOs (config : BootConfig) (registry : Registry) (stage : StageSpec) :
    (copySecureOs config registry stage).Asks Loads := by
  intro steps result h
  rcases path_copySecureOs h with
    ⟨stop, hlocate, -⟩ | ⟨forImage, region, answer, rest, hlocate, rfl, hcopied⟩
  · exact fun step hstep => .inl (Image.asks_locate _ _ _ _ _ hlocate step hstep)
  · refine List.forall_mem_append.2
      ⟨fun step hstep => .inl (Image.asks_locate _ _ _ _ _ hlocate step hstep),
        List.forall_mem_cons.2 ⟨.inr (.inl rfl), fun step hstep => .inr (.inr ?_)⟩⟩
    exact hcopied.asks step hstep

theorem asks_loadSecureOs (config : BootConfig) (registry : Registry) (secureOs : SecureOsConfig) :
    (loadSecureOs config registry secureOs).Asks Loads := by
  intro steps result h
  rcases path_loadSecureOs h with ⟨-, loaded, hload, -⟩ | ⟨-, hcopy⟩
  · exact fun step hstep => .inl (Image.asks_load _ _ _ _ _ hload step hstep)
  · exact asks_copySecureOs _ _ _ _ _ hcopy

theorem Loads.processor?_eq_none {q : Query} (h : Loads q) : q.processor? = none := by
  rcases h with h | rfl | h
  · exact h.processor?_eq_none
  · rfl
  · exact h.processor?_eq_none

/-- Loading an image does not reach the processor. -/
theorem processor_of_load {result : Except (Stop LoadError) Image.Loaded}
    (h : (Image.load config registry stage).Path steps result) :
    seen Query.processor? steps = [] :=
  (Image.asks_load _ _ _).seen_eq_nil h fun _ hfetches => hfetches.processor?_eq_none

/-- Loading a secure OS does not reach the processor. -/
theorem processor_of_loadSecureOs {secureOs : SecureOsConfig}
    {result : Except (Stop BootError) UInt64}
    (h : (loadSecureOs config registry secureOs).Path steps result) :
    seen Query.processor? steps = [] :=
  (asks_loadSecureOs _ _ _).seen_eq_nil h fun _ hloads => hloads.processor?_eq_none

/-- The queries from the end of loading on: gathering and cleaning. -/
def Assembles (q : Query) : Prop := Gathers q ∨ ∃ block, q = .clean block

theorem Adjusts.asks {result : Except (Stop BootError) Unit}
    (h : Adjusts decoder c steps result t) : ∀ step ∈ steps, Assembles step.query := by
  cases h with
  | plain hextension => exact List.forall_mem_nil _
  | filled hextension hfill =>
    rcases path_fill hfill with
      ⟨tz, stop, base, gathered, -, rfl, hgathered, -⟩ | ⟨stop, -, hgathered, -⟩
    · exact List.forall_mem_cons.2 ⟨.inl trivial, List.forall_mem_append.2
        ⟨fun step hstep => .inl (hgathered step hstep),
          List.forall_mem_singleton.2 (.inr ⟨_, rfl⟩)⟩⟩
    · exact fun step hstep => .inl (hgathered step hstep)

theorem Adjusts.pc {result : Except (Stop BootError) Unit} (h : Adjusts decoder c steps result t) :
    t.secureOsEntry.pc = c.secureOsEntry.pc := by
  cases h <;> rfl

variable {q : Query}

theorem Assembles.not_namesImage (h : Assembles q) : ¬q.NamesImage := by
  rcases h with h | ⟨block, rfl⟩
  · exact h.not_namesImage
  · exact id

theorem Assembles.keepsMemory (h : Assembles q) : q.KeepsMemory := by
  rcases h with h | ⟨block, rfl⟩
  · exact h.keepsMemory
  · exact ⟨rfl, rfl, rfl⟩

theorem assembles_entered (phase : Phase) : Assembles (entered phase).query := .inl trivial

/-- Behind its images a preparation adjusts, and then cleans some blocks. -/
theorem assembles_ending {adjusting : List Step} (h : ∀ step ∈ adjusting, Assembles step.query)
    (blocks : List Block) : ∀ step ∈ entered .assembleParams ::
      (adjusting ++ entered .flushCache :: blocks.map cleaned), Assembles step.query := by
  refine List.forall_mem_cons.2 ⟨assembles_entered _, List.forall_mem_append.2 ⟨h, ?_⟩⟩
  refine List.forall_mem_cons.2 ⟨assembles_entered _, List.forall_mem_map.2 fun block _ => ?_⟩
  exact .inr ⟨block, rfl⟩

/-- **Every course, cut where images are got.**  A preparation that starts in
time gets the image of the secure monitor; then it may get that of a secure OS;
and from there on it only assembles. -/
theorem Course.cut {payload : Payload} {result : Except (Stop BootError) Jump}
    (h : Course decoder registry payload c steps result t) :
    steps = [] ∨ ∃ forMonitor monitor rest,
      steps = entered .loadMonitor :: (forMonitor ++ rest) ∧
      (Image.load c.config registry c.config.monitor).Path forMonitor monitor ∧
      ((∀ step ∈ rest, Assembles step.query) ∨
        ∃ secureOs forSecureOs loaded last, c.config.secureOs = some secureOs ∧
          rest = entered .loadSecureOs :: (forSecureOs ++ last) ∧
          (loadSecureOs c.config registry secureOs).Path forSecureOs loaded ∧
          ∀ step ∈ last, Assembles step.query) := by
  cases h with
  | late hphase => exact .inl rfl
  | noMonitor hphase hmonitor =>
    exact .inr ⟨_, _, [], by rw [List.append_nil], hmonitor, .inl (List.forall_mem_nil _)⟩
  | noSecureOs hphase hmonitor hsecureOs hload =>
    exact .inr ⟨_, _, _, rfl, hmonitor, .inr ⟨_, _, _, [], hsecureOs, by rw [List.append_nil],
      hload, List.forall_mem_nil _⟩⟩
  | notAdjusted hphase hmonitor hsecureOs hload hadjust =>
    exact .inr ⟨_, _, _, rfl, hmonitor, .inr ⟨_, _, _, _, hsecureOs, rfl, hload,
      List.forall_mem_cons.2 ⟨assembles_entered _, hadjust.asks⟩⟩⟩
  | alone hphase hmonitor hsecureOs ht =>
    exact .inr ⟨_, _, _, rfl, hmonitor, .inl
      (assembles_ending (List.forall_mem_nil _) [t.paramsBlock, t.payloadBlock])⟩
  | complete hphase hmonitor hsecureOs hload hadjust ht =>
    exact .inr ⟨_, _, _, rfl, hmonitor, .inr ⟨_, _, _, _, hsecureOs, rfl, hload,
      assembles_ending hadjust.asks [t.secureOsBlock, t.paramsBlock, t.payloadBlock]⟩⟩

/-- A preparation only loads and assembles. -/
theorem Course.asks {payload : Payload} {result : Except (Stop BootError) Jump}
    (h : Course decoder registry payload c steps result t) :
    ∀ step ∈ steps, Loads step.query ∨ Assembles step.query := by
  rcases h.cut with rfl | ⟨forMonitor, monitor, rest, rfl, hmonitor, hrest⟩
  · exact List.forall_mem_nil _
  · refine List.forall_mem_cons.2 ⟨.inr (assembles_entered _), List.forall_mem_append.2
      ⟨fun step hstep => .inl (.inl (Image.asks_load _ _ _ _ _ hmonitor step hstep)), ?_⟩⟩
    rcases hrest with hassembles | ⟨secureOs, forSecureOs, loaded, last, -, rfl, hload, hlast⟩
    · exact fun step hstep => .inr (hassembles step hstep)
    · exact List.forall_mem_cons.2 ⟨.inr (assembles_entered _), List.forall_mem_append.2
        ⟨fun step hstep => .inl (asks_loadSecureOs _ _ _ _ _ hload step hstep),
          fun step hstep => .inr (hlast step hstep)⟩⟩

end Handoff
end BootHandoff

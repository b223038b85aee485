/-
# A copied secure OS stays within its carveout

Between the bottom of the trusted carveout, where the secure monitor has its
space, and the carveout's end, an image either fits or is refused before a byte
of it is read.  `secureOs_within_carveout` says so of every run, with numbers
that cannot overflow: what is refused, which bytes of memory can change, and
what they are at the end.
-/

import BootHandoff.Proofs.Bench.Steady
import BootHandoff.Proofs.Handoff.Footprint

namespace BootHandoff
namespace Handoff

open Bench Board Flash Memory Platform SecureOs Verified

variable {decoder : KeyStore.Decoder} {registry : Registry} {payload : Payload}
  {config : BootConfig} {stage : StageSpec} {region : Region} {tz : MibRange} {c t : Context}
  {steps : List Step}

/-- How far a handoff comes that has to place a secure OS: the secure monitor
was loaded, the image was located at `region`, and the platform reported the
trusted carveout as `tz`. -/
def Reports (registry : Registry) (c : Context) (stage : StageSpec) (steps : List Step)
    (region : Region) (tz : MibRange) : Prop :=
  ∃ forMonitor monitor forImage rest,
    (Image.load c.config registry c.config.monitor).Path forMonitor (.ok monitor) ∧
    (Image.locate c.config registry stage).Path forImage (.ok region) ∧
    steps = entered .loadMonitor :: (forMonitor ++ entered .loadSecureOs ::
      (forImage ++ ⟨.carveout .tz, .ok tz⟩ :: rest))

/-- The end of a preparation that follows from how the secure OS was loaded. -/
def Follows (loaded : Except (Stop BootError) UInt64) (last : List Step)
    (result : Except (Stop BootError) Jump) (t : Context) : Prop :=
  (∃ stop, loaded = .error stop ∧ last = [] ∧ result = .error stop) ∨
  ∃ pc, loaded = .ok pc ∧ (∀ step ∈ last, Assembles step.query) ∧
    ∀ jump, result = .ok jump → t.secureOsEntry.pc = pc

theorem follows_error_iff {stop : Stop BootError} {last : List Step}
    {result : Except (Stop BootError) Jump} :
    Follows (.error stop) last result t ↔ last = [] ∧ result = .error stop := by
  constructor
  · rintro (⟨_, hstop, hlast, hresult⟩ | ⟨_, ⟨⟩, -⟩)
    obtain rfl := Except.error.inj hstop
    exact ⟨hlast, hresult⟩
  · rintro ⟨hlast, hresult⟩
    exact .inl ⟨stop, rfl, hlast, hresult⟩

/-- **Every course with a secure OS,** cut behind its image. -/
theorem Course.cut_secureOs {secureOs : SecureOsConfig} {result : Except (Stop BootError) Jump}
    (hsecureOs : c.config.secureOs = some secureOs)
    (h : Course decoder registry payload c steps result t) :
    (steps = [] ∧ ∃ stop, result = .error stop) ∨
    ∃ forMonitor monitor rest,
      (Image.load c.config registry c.config.monitor).Path forMonitor monitor ∧
      steps = entered .loadMonitor :: (forMonitor ++ rest) ∧
      ((∃ stop, monitor = .error stop ∧ rest = [] ∧ result = .error (stop.map .load)) ∨
        ∃ loaded forSecureOs end' last, monitor = .ok loaded ∧
          (loadSecureOs c.config registry secureOs).Path forSecureOs end' ∧
          rest = entered .loadSecureOs :: (forSecureOs ++ last) ∧ Follows end' last result t) := by
  cases h with
  | late hphase => exact .inl ⟨rfl, _, rfl⟩
  | noMonitor hphase hmonitor =>
    exact .inr ⟨_, _, [], hmonitor, by rw [List.append_nil], .inl ⟨_, rfl, rfl, rfl⟩⟩
  | noSecureOs hphase hmonitor hsome hload =>
    obtain rfl := Option.some.inj (hsecureOs.symm.trans hsome)
    exact .inr ⟨_, _, _, hmonitor, rfl, .inr ⟨_, _, _, [], rfl, hload, by rw [List.append_nil],
      .inl ⟨_, rfl, rfl, rfl⟩⟩⟩
  | notAdjusted hphase hmonitor hsome hload hadjust =>
    obtain rfl := Option.some.inj (hsecureOs.symm.trans hsome)
    exact .inr ⟨_, _, _, hmonitor, rfl, .inr ⟨_, _, _, _, rfl, hload, rfl, .inr ⟨_, rfl,
      List.forall_mem_cons.2 ⟨assembles_entered _, hadjust.asks⟩, nofun⟩⟩⟩
  | alone hphase hmonitor hnone ht =>
    cases hsecureOs.symm.trans hnone
  | complete hphase hmonitor hsome hload hadjust ht =>
    obtain rfl := Option.some.inj (hsecureOs.symm.trans hsome)
    have hpc : t.secureOsEntry.pc = _ := (congrArg (·.secureOsEntry.pc) ht).trans hadjust.pc
    exact .inr ⟨_, _, _, hmonitor, rfl, .inr ⟨_, _, _, _, rfl, hload, rfl, .inr ⟨_, rfl,
      assembles_ending hadjust.asks [t.secureOsBlock, t.paramsBlock, t.payloadBlock],
      fun _ _ => hpc⟩⟩⟩

/-- A course on which the carveout is reported has a copy behind the report.
There is only one way to cut it, since a part of a course that starts the same
steps is the same part. -/
theorem Course.copied_of_reports {result : Except (Stop BootError) Jump}
    (hraw : c.config.secureOs = some ⟨stage, .raw⟩)
    (h : Course decoder registry payload c steps result t)
    (hreports : Reports registry c stage steps region tz) :
    ∃ forMonitor forImage copying loaded last,
      steps = entered .loadMonitor :: (forMonitor ++ entered .loadSecureOs ::
        (forImage ++ ⟨.carveout .tz, .ok tz⟩ :: (copying ++ last))) ∧
      (∀ step ∈ forMonitor, Image.Fetches step.query) ∧
      (∀ step ∈ forImage, Image.Fetches step.query) ∧
      Copied c.config region (.ok tz) copying loaded ∧ Follows loaded last result t := by
  obtain ⟨forMonitor, monitor, forImage, rest, hmonitor, hlocate, hsteps⟩ := hreports
  rcases h.cut_secureOs hraw with ⟨rfl, -⟩ | ⟨forMonitor', monitor', rest', hmonitor', rfl, hcases⟩
  · cases hsteps
  · obtain ⟨rfl, rfl, rfl⟩ := Firmware.Path.unique hmonitor' hmonitor (List.cons.inj hsteps).2
    rcases hcases with ⟨_, ⟨⟩, -⟩ | ⟨_, forSecureOs, loaded, last, -, hload, hrest, hfollows⟩
    rcases path_loadSecureOs hload with ⟨⟨⟩, -⟩ | ⟨-, hcopy⟩
    have htail := (List.cons.inj hrest).2.symm
    rcases path_copySecureOs hcopy with
      ⟨stop, hlocate', -⟩ | ⟨forImage', region', answer, copying, hlocate', rfl, hcopied⟩
    · obtain ⟨-, ⟨⟩, -⟩ := Firmware.Path.unique hlocate' hlocate htail
    · rw [List.append_assoc] at htail
      obtain ⟨rfl, hregion, htail'⟩ := Firmware.Path.unique hlocate' hlocate htail
      obtain rfl := Except.ok.inj hregion
      obtain ⟨hstep, rfl⟩ := List.cons.inj htail'
      obtain rfl : answer = .ok tz := by
        injection hstep
      exact ⟨forMonitor', forImage', copying, loaded, last, rfl,
        Image.asks_load _ _ _ _ _ hmonitor, Image.asks_locate _ _ _ _ _ hlocate, hcopied, hfollows⟩

/-- On a course on which the carveout is never reported, nothing is stored. -/
theorem Course.stores_of_not_reports {result : Except (Stop BootError) Jump}
    (hraw : c.config.secureOs = some ⟨stage, .raw⟩)
    (h : Course decoder registry payload c steps result t)
    (hreports : ∀ region tz, ¬Reports registry c stage steps region tz) :
    seen Query.store? steps = [] ∧ ∃ stop, result = .error stop := by
  rcases h.cut_secureOs hraw with
    ⟨rfl, hstop⟩ | ⟨forMonitor, monitor, rest, hmonitor, rfl, hcases⟩
  · exact ⟨rfl, hstop⟩
  · have hfetches : seen Query.store? forMonitor = [] :=
      (Image.asks_load _ _ _).seen_eq_nil hmonitor fun _ h => h.keepsMemory.store
    rcases hcases with
      ⟨stop, -, rfl, rfl⟩ | ⟨loaded, forSecureOs, end', last, rfl, hload, rfl, hfollows⟩
    · refine ⟨?_, _, rfl⟩
      simp only [seen_cons, seen_append, hfetches]
      rfl
    · rcases path_loadSecureOs hload with ⟨⟨⟩, -⟩ | ⟨-, hcopy⟩
      rcases path_copySecureOs hcopy with
        ⟨stop, hlocate, rfl⟩ | ⟨forImage, region, answer, copying, hlocate, rfl, hcopied⟩
      · obtain ⟨rfl, rfl⟩ := follows_error_iff.1 hfollows
        have hlocated : seen Query.store? forSecureOs = [] :=
          (Image.asks_locate _ _ _).seen_eq_nil hlocate fun _ h => h.keepsMemory.store
        refine ⟨?_, _, rfl⟩
        simp only [seen_cons, seen_append, hfetches, hlocated]
        rfl
      · cases answer with
        | ok tz =>
          refine absurd ⟨_, _, _, copying ++ last, hmonitor, hlocate, ?_⟩ (hreports region tz)
          rw [List.append_assoc, List.cons_append]
        | error e =>
          cases hcopied
          obtain ⟨rfl, rfl⟩ := follows_error_iff.1 hfollows
          have hlocated : seen Query.store? forImage = [] :=
            (Image.asks_locate _ _ _).seen_eq_nil hlocate fun _ h => h.keepsMemory.store
          refine ⟨?_, _, rfl⟩
          simp only [seen_cons, seen_append, hfetches, hlocated]
          rfl

/-- **Where a copy stores:** within the image's place, which is within the
carveout. -/
theorem Copied.mem_stores {loaded : Except (Stop BootError) UInt64}
    (h : Copied config region (.ok tz) steps loaded) {base : UInt64} {bytes : Bytes}
    (hstore : (base, bytes) ∈ seen Query.store? steps) :
    base.toNat = tz.behind config.monitorSizeMib ∧ bytes.length ≤ region.len.toNat ∧
      tz.behind config.monitorSizeMib + region.len.toNat ≤ tz.finish := by
  have hplaced : ∀ {address held copying result},
      placement tz config.monitorSizeMib region.len.toUInt64 = .ok address →
      (Image.copyToMemory region address held).Path copying result →
      (base, bytes) ∈ seen Query.store? copying →
      base.toNat = tz.behind config.monitorSizeMib ∧ bytes.length ≤ region.len.toNat ∧
        tz.behind config.monitorSizeMib + region.len.toNat ≤ tz.finish := by
    intro address held copying result hplace hcopy hmem
    obtain ⟨haddress, hend, -⟩ := placement_eq_ok_iff.1 hplace
    rw [UInt32.toNat_toUInt64] at hend
    rcases Image.path_copyToMemory hcopy with ⟨hlt, rfl, -⟩ | ⟨area, count, front, -, rfl, -⟩
    · obtain ⟨rfl, rfl⟩ := Prod.mk.inj (List.mem_singleton.1 hmem)
      exact ⟨haddress.symm, Nat.le_of_lt hlt, hend⟩
    · obtain ⟨rfl, rfl⟩ := Prod.mk.inj (List.mem_singleton.1 hmem)
      exact ⟨haddress.symm, Nat.le_of_eq front.length_bytes, hend⟩
  cases h with
  | refused hplace => cases hstore
  | denied hplace e => cases hstore
  | failed hplace hcopy => exact hplaced hplace hcopy hstore
  | stored hplace hcopy text =>
    rw [seen_cons, seen_append] at hstore
    refine hplaced hplace hcopy ?_
    simpa [seen_cons, Query.store?, logged] using hstore

/-- **An image that ends behind the carveout is refused** with its length, and
nothing is read and no memory asked for. -/
theorem Copied.refused_of_lt {loaded : Except (Stop BootError) UInt64}
    (h : Copied config region (.ok tz) steps loaded)
    (hlt : tz.finish < tz.behind config.monitorSizeMib + region.len.toNat) :
    steps = [] ∧ loaded = .error (.error (.secureOsTooLarge region.len.toUInt64)) := by
  have hplace : placement tz config.monitorSizeMib region.len.toUInt64 = _ :=
    placement_of_lt (by rwa [UInt32.toNat_toUInt64])
  cases h with
  | refused hplace' =>
    obtain rfl := Except.error.inj (hplace'.symm.trans hplace)
    exact ⟨rfl, rfl⟩
  | denied hplace' e => cases hplace'.symm.trans hplace
  | failed hplace' hcopy => cases hplace'.symm.trans hplace
  | stored hplace' hcopy text => cases hplace'.symm.trans hplace

/-- The stores of a course are those of its copy. -/
theorem stores_eq_of_copied {forMonitor forImage copying last : List Step}
    (hmonitor : ∀ step ∈ forMonitor, Image.Fetches step.query)
    (himage : ∀ step ∈ forImage, Image.Fetches step.query)
    (hlast : ∀ step ∈ last, Assembles step.query) :
    seen Query.store? (entered .loadMonitor :: (forMonitor ++ entered .loadSecureOs ::
      (forImage ++ ⟨.carveout .tz, .ok tz⟩ :: (copying ++ last)))) =
        seen Query.store? copying := by
  have h₁ := seen_eq_nil fun step hstep => (hmonitor step hstep).keepsMemory.store
  have h₂ := seen_eq_nil fun step hstep => (himage step hstep).keepsMemory.store
  have h₃ := seen_eq_nil fun step hstep => (hlast step hstep).keepsMemory.store
  simp only [seen_cons, seen_append, h₁, h₂, h₃, List.append_nil]
  rfl

theorem Course.refused_of_lt {result : Except (Stop BootError) Jump}
    (hraw : c.config.secureOs = some ⟨stage, .raw⟩)
    (h : Course decoder registry payload c steps result t)
    (hreports : Reports registry c stage steps region tz)
    (hlt : tz.finish < tz.behind c.config.monitorSizeMib + region.len.toNat) :
    result = .error (.error (.secureOsTooLarge region.len.toUInt64)) ∧
      seen Query.read? steps = [] ∧ seen Query.window? steps = [] := by
  obtain ⟨forMonitor, forImage, copying, loaded, last, rfl, hmonitor, himage, hcopied, hfollows⟩ :=
    h.copied_of_reports hraw hreports
  obtain ⟨rfl, rfl⟩ := hcopied.refused_of_lt hlt
  obtain ⟨rfl, rfl⟩ := follows_error_iff.1 hfollows
  have h₁ := seen_eq_nil fun step hstep => (hmonitor step hstep).keepsMemory.read
  have h₂ := seen_eq_nil fun step hstep => (himage step hstep).keepsMemory.read
  have h₃ := seen_eq_nil fun step hstep => (hmonitor step hstep).keepsMemory.window
  have h₄ := seen_eq_nil fun step hstep => (himage step hstep).keepsMemory.window
  refine ⟨rfl, ?_, ?_⟩
  · simp only [seen_cons, seen_append, h₁, h₂]
    rfl
  · simp only [seen_cons, seen_append, h₃, h₄]
    rfl

theorem Course.mem_stores {result : Except (Stop BootError) Jump} {base : UInt64} {bytes : Bytes}
    (hraw : c.config.secureOs = some ⟨stage, .raw⟩)
    (h : Course decoder registry payload c steps result t)
    (hreports : Reports registry c stage steps region tz)
    (hstore : (base, bytes) ∈ seen Query.store? steps) :
    base.toNat = tz.behind c.config.monitorSizeMib ∧ bytes.length ≤ region.len.toNat ∧
      tz.behind c.config.monitorSizeMib + region.len.toNat ≤ tz.finish := by
  obtain ⟨forMonitor, forImage, copying, loaded, last, rfl, hmonitor, himage, hcopied, hfollows⟩ :=
    h.copied_of_reports hraw hreports
  refine hcopied.mem_stores ?_
  have hlast : ∀ step ∈ last, Assembles step.query := by
    rcases hfollows with ⟨stop, -, rfl, -⟩ | ⟨pc, -, hlast, -⟩
    · exact List.forall_mem_nil _
    · exact hlast
  rwa [stores_eq_of_copied hmonitor himage hlast] at hstore

theorem Course.stored {jump : Jump} (hraw : c.config.secureOs = some ⟨stage, .raw⟩)
    (h : Course decoder registry payload c steps (.ok jump) t)
    (hreports : Reports registry c stage steps region tz) :
    ∃ area image, ⟨.readFlash region.offset region.len.toNat area,
        (region.len.toUInt64, image)⟩ ∈ steps ∧
      t.secureOsEntry.pc.toNat = tz.behind c.config.monitorSizeMib ∧
      seen Query.store? steps = [(t.secureOsEntry.pc, image.bytes)] := by
  obtain ⟨forMonitor, forImage, copying, loaded, last, rfl, hmonitor, himage, hcopied, hfollows⟩ :=
    h.copied_of_reports hraw hreports
  rcases hfollows with ⟨_, -, -, ⟨⟩⟩ | ⟨pc, rfl, hlast, hpc⟩
  obtain ⟨_, held, area, image, text, ⟨⟩, hplace, rfl⟩ := hcopied.ok_cases
  obtain rfl := hpc jump rfl
  refine ⟨area, image, ?_, (placement_eq_ok_iff.1 hplace).1.symm, ?_⟩
  · simp
  · rw [stores_eq_of_copied hmonitor himage hlast]
    rfl

/-- **A copied secure OS stays within its carveout.**  On every run of a
preparation, either the carveout is never reported, and then memory stays as it
is and the preparation fails; or the image's place is `start` to
`start + len`, behind the secure monitor's space.  An image whose place ends
behind the carveout is refused before anything is read.  At no moment has a byte
of memory changed outside of the place, and if one has changed the place is
within the carveout.  After a preparation that succeeds, the place holds what
the flash delivered for the region, all else is as it was, and the secure OS is
entered at `start`. -/
theorem secureOs_within_carveout {σ : Type} (m : Machine σ) (s : σ)
    (decoder : KeyStore.Decoder) (registry : Registry) (payload : Payload) (c : Context)
    (stage : StageSpec) (hcustom : c.extension ≠ .custom)
    (hraw : c.config.secureOs = some ⟨stage, .raw⟩) :
    let r := ((prepare decoder registry payload).on c).run m s
    (∀ region tz, Reports registry c stage r.steps region tz →
      let start := tz.behind c.config.monitorSizeMib
      let len := region.len.toNat
      (tz.finish < start + len →
        r.value.1 = .error (.error (.secureOsTooLarge region.len.toUInt64)) ∧
          seen Query.read? r.steps = [] ∧ seen Query.window? r.steps = []) ∧
      (∀ before after, r.steps = before ++ after → ∀ (memory : Contents) x,
        memory.after before x ≠ memory x →
          start ≤ x ∧ x < start + len ∧ start + len ≤ tz.finish) ∧
      ∀ jump, r.value.1 = .ok jump → ∃ area image,
        ⟨.readFlash region.offset len area, (region.len.toUInt64, image)⟩ ∈ r.steps ∧
        r.value.2.secureOsEntry.pc.toNat = start ∧ ∀ memory : Contents,
          (∀ i : Fin len, memory.after r.steps (start + i) = image.get i) ∧
          ∀ x, ¬(start ≤ x ∧ x < start + len) → memory.after r.steps x = memory x) ∧
    ((∀ region tz, ¬Reports registry c stage r.steps region tz) →
      (∃ stop, r.value.1 = .error stop) ∧ ∀ before after, r.steps = before ++ after →
        ∀ memory : Contents, memory.after before = memory) := by
  intro r
  have hcourse := course_of_path hcustom (Action.path_run m (prepare decoder registry payload) c s)
  refine ⟨fun region tz hreports => ⟨fun hlt => hcourse.refused_of_lt hraw hreports hlt,
    fun before after hsplit memory x hx => ?_, fun jump hjump => ?_⟩, fun hreports => ?_⟩
  · refine Classical.byContradiction fun hout =>
      hx (memory.after_eq_of_forall fun base bytes hstore hin => hout ?_)
    have hmem : (base, bytes) ∈ seen Query.store? r.steps := by
      rw [hsplit, seen_append]
      exact List.mem_append_left _ hstore
    obtain ⟨hbase, hlen, hend⟩ := hcourse.mem_stores hraw hreports hmem
    exact ⟨by omega, by omega, hend⟩
  · obtain ⟨area, image, hread, hpc, hstores⟩ :=
      (course_of_run hcustom hjump).stored hraw hreports
    refine ⟨area, image, hread, hpc, fun memory => ⟨fun i => ?_, fun x hx => ?_⟩⟩
    · have hi : (i : Nat) < image.bytes.length := by rw [image.length_bytes]; exact i.isLt
      have hafter : memory.after r.steps =
          memory.store r.value.2.secureOsEntry.pc image.bytes := by
        unfold Contents.after
        rw [show seen Query.store? r.steps = _ from hstores]
        rfl
      rw [hafter, ← hpc, Contents.store_of_lt memory hi]
      rfl
    · refine memory.after_eq_of_forall fun base bytes hstore hin => hx ?_
      obtain ⟨hbase, hlen, -⟩ := hcourse.mem_stores hraw hreports hstore
      omega
  · obtain ⟨hstores, hstop⟩ := hcourse.stores_of_not_reports hraw hreports
    refine ⟨hstop, fun before after hsplit memory => ?_⟩
    have hbefore : seen Query.store? before = [] := by
      rw [show r.steps = before ++ after from hsplit, seen_append] at hstores
      exact (List.append_eq_nil_iff.1 hstores).1
    unfold Contents.after
    rw [hbefore]
    rfl

/-- The hypotheses are satisfiable: on the bench the secure OS has four bytes, and
they are copied right behind the secure monitor's MiB. -/
theorem secureOs_within_carveout_on_bench :
    let c := Context.onBench (Rig.config false) .none
    let r := ((prepare KeyStore.decodeOver .unavailable .onBench).on c).run Rig.machine Rig.stocked
    c.extension ≠ .custom ∧ c.config.secureOs = some ⟨secureOsStage, .raw⟩ ∧
    ∃ region tz, Reports .unavailable c secureOsStage r.steps region tz ∧
    ∃ jump, r.value.1 = .ok jump ∧ ∃ area image,
      ⟨.readFlash region.offset region.len.toNat area, (region.len.toUInt64, image)⟩ ∈ r.steps ∧
      r.value.2.secureOsEntry.pc.toNat = tz.behind c.config.monitorSizeMib := by
  intro c r
  have hcustom : c.extension ≠ .custom := nofun
  have hraw : c.config.secureOs = some ⟨secureOsStage, .raw⟩ := rfl
  have hjump : r.value.1 = .ok ⟨0x40000000, 0x1000, 0⟩ := by
    unfold r c
    rfl
  obtain ⟨hreported, hunreported⟩ := secureOs_within_carveout Rig.machine Rig.stocked
    KeyStore.decodeOver .unavailable .onBench c secureOsStage hcustom hraw
  have hreports : ∃ region tz, Reports .unavailable c secureOsStage r.steps region tz := by
    refine Classical.byContradiction fun hnone => ?_
    obtain ⟨⟨stop, hstop⟩, -⟩ := hunreported fun region tz h => hnone ⟨region, tz, h⟩
    rw [hjump] at hstop
    cases hstop
  obtain ⟨region, tz, hreports⟩ := hreports
  obtain ⟨-, -, hcopied⟩ := hreported region tz hreports
  obtain ⟨area, image, hread, hpc, -⟩ := hcopied _ hjump
  unfold r at *
  exact ⟨hcustom, hraw, region, tz, hreports, _, hjump, area, image, hread, hpc⟩

end Handoff
end BootHandoff

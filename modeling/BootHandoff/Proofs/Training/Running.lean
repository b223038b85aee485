/-
# When the training code is run

Training code is run unchecked, with all that the processor may do, so all depends on
what is in memory when it is entered.  `Ready` is what has to come true for that: the
board has training code, it is found, it fits its place, the place is granted, and all
of it arrives there.  A run in which one of these fails never gets to the code, and a
run in which they hold enters it once, at its place, when the place holds the code
(`run_trains_when_ready`).

The conditions are about what the platform answers, not about the course that the run
takes, so they can be told before it.  That they decide about the course is
`Copied.ok_iff` for the copy, and `Course.split_of_ready` and `Course.not_trains` for
all of it.
-/

import BootHandoff.Proofs.Bench.Showing
import BootHandoff.Proofs.Platform.Replay
import BootHandoff.Proofs.Training.Course

namespace BootHandoff
namespace Training

open Bench Board Flash Platform Verified

section Ready

variable {σ : Type}

/-- Training code that arrives: a platform grants its place, and then the flash delivers all of
it. -/
structure Arrives (m : Machine σ) (u : σ) (code : TrainingConfig) (region : Region)
    (held : Bytes) : Prop where
  granted : (m.respond (.window code.loadAddress region.len.toUInt64) u).1 = .ok held
  delivered : (m.respond (.readFlash region.offset region.len.toNat (Buffer.ofFront _ held))
    (m.respond (.window code.loadAddress region.len.toUInt64) u).2).1.1 = region.len.toUInt64

/-- Where a platform has the training code, and its state then. -/
def located (m : Machine σ) (u : σ) (config : BootConfig) (registry : Registry)
    (code : TrainingConfig) : Outcome σ (Except (Stop LoadError) Region) :=
  (Image.locate config registry code.stage).run.run m u

/-- All that training code needs to be run on a platform. -/
structure Ready (m : Machine σ) (u : σ) (config : BootConfig) (registry : Registry)
    (code : TrainingConfig) (region : Region) (held : Bytes) : Prop where
  configured : config.training = some code
  found : (located m u config registry code).value = .ok region
  fits : region.len.toUInt64 ≤ code.maxSize
  arrives : Arrives m (located m u config registry code).state code region held

end Ready

variable {σ : Type} {m : Machine σ} {u : σ} {config : BootConfig} {registry : Registry}
  {code : TrainingConfig} {region : Region} {held : Bytes} {place : UInt64} {n : Nat}
  {buf t : Buffer n} {steps : List Step} {result : Except (Stop Error) Table}

/-- An area that is all of a window holds what the window held. -/
theorem eq_ofFront_of_take {k : Nat} {area : Buffer k} (harea : area.bytes = held.take k)
    (hlength : held.length = k) : area = Buffer.ofFront k held := by
  refine Buffer.ext ?_
  rw [harea, Buffer.bytes_ofFront_of_le (Nat.le_of_eq hlength), hlength, Nat.sub_self,
    List.take_of_length_le (Nat.le_of_eq hlength)]
  exact (List.append_nil held).symm

/-- **A copy succeeds if the code arrives.** -/
theorem Copied.ok_iff {result : Except (Stop Error) Unit} (h : Copied code region steps result)
    (hanswers : m.Answers u steps) (hexact : ∀ step ∈ steps, step.WindowsExactly) :
    result = .ok () ↔ ∃ held, Arrives m u code region held := by
  have hlen := UInt32.toNat_toUInt64 region.len
  cases h with
  | denied e =>
    refine ⟨nofun, ?_⟩
    rintro ⟨held, hgranted, -⟩
    cases hanswers.1.trans hgranted
  | outside hshort =>
    have hlength : _ = region.len.toUInt64.toNat := hexact _ List.mem_cons_self
    omega
  | @cutShort held area image count harea hcount =>
    refine ⟨nofun, ?_⟩
    rintro ⟨held', hgranted, hdelivered⟩
    obtain ⟨hwindow, hread, -⟩ := hanswers
    obtain rfl := Except.ok.inj (hwindow.trans hgranted)
    have hlength : held.length = region.len.toUInt64.toNat := hexact _ List.mem_cons_self
    rw [← eq_ofFront_of_take harea (hlength.trans hlen)] at hdelivered
    exact absurd ((congrArg Prod.fst hread).trans hdelivered) hcount
  | @complete held area image harea =>
    refine ⟨fun _ => ⟨held, ?_, ?_⟩, fun _ => rfl⟩
    · exact hanswers.1.symm
    · have hlength : held.length = region.len.toUInt64.toNat := hexact _ List.mem_cons_self
      rw [← eq_ofFront_of_take harea (hlength.trans hlen)]
      exact (congrArg Prod.fst hanswers.2.1).symm

/-- A part of a run that locates the code is what locating it does on the platform. -/
theorem located_eq {forImage rest : List Step} {end' : Except (Stop LoadError) Region}
    (hlocate : (Image.locate config registry code.stage).Path forImage end')
    (hanswers : m.Answers u (forImage ++ rest)) :
    located m u config registry code = ⟨end', m.after u forImage, forImage⟩ :=
  Firmware.run_eq_of_path hlocate (Machine.answers_append.1 hanswers).1

/-- **Every course on which the code is found,** cut behind its location. -/
theorem Course.cut_of_found (h : Course config registry place buf steps result t)
    (hanswers : m.Answers u steps) (hcode : config.training = some code)
    (hfound : (located m u config registry code).value = .ok region) :
    ∃ forImage rest, (Image.locate config registry code.stage).Path forImage (.ok region) ∧
      steps = forImage ++ rest ∧
      ((¬region.len.toUInt64 ≤ code.maxSize ∧ rest = [] ∧
          result = .error (.error (.tooLarge region.len.toUInt64 code.maxSize))) ∨
        region.len.toUInt64 ≤ code.maxSize ∧
          ((∃ stop, Copied code region rest (.error stop)) ∨
            ∃ copying answer last, Copied code region copying (.ok ()) ∧
              rest = copying ++ ⟨.train code.loadAddress, answer⟩ :: last ∧
              ∀ step ∈ last, Collects step.query)) := by
  cases h with
  | notConfigured hnone => cases hnone.symm.trans hcode
  | notLocated hcode' hlocate =>
    obtain rfl := Option.some.inj (hcode'.symm.trans hcode)
    rw [located_eq hlocate (by rwa [List.append_nil])] at hfound
    cases hfound
  | tooLarge hcode' hlocate hlarge =>
    obtain rfl := Option.some.inj (hcode'.symm.trans hcode)
    rw [located_eq hlocate (by rwa [List.append_nil])] at hfound
    obtain rfl := Except.ok.inj hfound
    exact ⟨_, [], hlocate, (List.append_nil _).symm, .inl ⟨hlarge, rfl, rfl⟩⟩
  | notCopied hcode' hlocate hfits hcopied =>
    obtain rfl := Option.some.inj (hcode'.symm.trans hcode)
    rw [located_eq hlocate hanswers] at hfound
    obtain rfl := Except.ok.inj hfound
    exact ⟨_, _, hlocate, rfl, .inr ⟨hfits, .inl ⟨_, hcopied⟩⟩⟩
  | trained hcode' hlocate hfits hcopied hanswered =>
    obtain rfl := Option.some.inj (hcode'.symm.trans hcode)
    rw [located_eq hlocate hanswers] at hfound
    obtain rfl := Except.ok.inj hfound
    exact ⟨_, _, hlocate, rfl, .inr ⟨hfits, .inr ⟨_, _, _, hcopied, rfl, hanswered.collects⟩⟩⟩

/-- A course on which all of the code arrives, cut at the moment when it is run. -/
theorem Course.split_of_ready (h : Course config registry place buf steps result t)
    (hanswers : m.Answers u steps) (hexact : ∀ step ∈ steps, step.WindowsExactly)
    (hready : Ready m u config registry code region held) :
    ∃ before answer after, steps = before ++ ⟨.train code.loadAddress, answer⟩ :: after ∧
      seen Query.train? (before ++ after) = [] ∧
      ∃ area image, ⟨.readFlash region.offset region.len.toNat area,
          (region.len.toUInt64, image)⟩ ∈ before ∧
        seen Query.store? before = [(code.loadAddress, image.bytes)] := by
  obtain ⟨hcode, hfound, hfits, harrives⟩ := hready
  obtain ⟨forImage, rest, hlocate, rfl, ⟨hlarge, -, -⟩ | ⟨-, ⟨stop, hcopied⟩ |
    ⟨copying, answer, last, hcopied, rfl, hcollects⟩⟩⟩ := h.cut_of_found hanswers hcode hfound
  · exact absurd hfits hlarge
  · rw [located_eq hlocate hanswers] at harrives
    cases (hcopied.ok_iff (Machine.answers_append.1 hanswers).2 fun step hstep =>
      hexact step (List.mem_append_right _ hstep)).2 ⟨held, harrives⟩
  · refine ⟨forImage ++ copying, answer, last, (List.append_assoc ..).symm, ?_, ?_⟩
    · rw [seen_append, seen_append, seen_of_locate hlocate fun _ h => h.train?_eq_none,
        hcopied.train?, seen_eq_nil fun step hstep => (hcollects step hstep).train?_eq_none]
      rfl
    · cases hcopied with
      | @complete held area image harea text =>
        refine ⟨area, image, by simp, ?_⟩
        rw [seen_append, seen_of_locate hlocate fun _ h => h.keepsMemory.store]
        rfl

/-- On a course on which not all of the code arrives, it is not run. -/
theorem Course.not_trains (h : Course config registry place buf steps result t)
    (hanswers : m.Answers u steps) (hexact : ∀ step ∈ steps, step.WindowsExactly)
    (hready : ∀ code region held, ¬Ready m u config registry code region held) :
    seen Query.train? steps = [] := by
  rcases h.cut_of_trains with ⟨hnone, -, -⟩ |
    ⟨code, forImage, region, copying, source, size, rest, hcode, hlocate, hfits, hcopied, rfl, -⟩
  · exact hnone
  · have hlocated := located_eq hlocate hanswers
    rw [Machine.answers_append, Machine.answers_append] at hanswers
    obtain ⟨held, harrives⟩ := (hcopied.ok_iff hanswers.2.1 fun step hstep =>
      hexact step (List.mem_append_right _ (List.mem_append_left _ hstep))).1 rfl
    exact absurd ⟨hcode, by rw [hlocated], hfits, by rwa [hlocated]⟩ (hready code region held)

/-- **Code that is larger than its place** is refused before any memory is asked for. -/
theorem Course.refused_of_large (h : Course config registry place buf steps result t)
    (hanswers : m.Answers u steps) (hcode : config.training = some code)
    (hfound : (located m u config registry code).value = .ok region)
    (hlarge : code.maxSize < region.len.toUInt64) :
    result = .error (.error (.tooLarge region.len.toUInt64 code.maxSize)) ∧
      seen Query.window? steps = [] ∧ seen Query.read? steps = [] := by
  obtain ⟨forImage, rest, hlocate, rfl, ⟨-, rfl, hresult⟩ | ⟨hfits, -⟩⟩ :=
    h.cut_of_found hanswers hcode hfound
  · rw [List.append_nil]
    exact ⟨hresult, seen_of_locate hlocate fun _ h => h.keepsMemory.window,
      seen_of_locate hlocate fun _ h => h.keepsMemory.read⟩
  · exact absurd hfits (UInt64.not_le.2 hlarge)

theorem Copied.mem_stores {result : Except (Stop Error) Unit} (h : Copied code region steps result)
    (hfits : region.len.toUInt64 ≤ code.maxSize) {base : UInt64} {bytes : Bytes}
    (hstore : (base, bytes) ∈ seen Query.store? steps) :
    base = code.loadAddress ∧ bytes.length ≤ code.maxSize.toNat := by
  have hle : region.len.toNat ≤ code.maxSize.toNat := by
    rw [← UInt32.toNat_toUInt64]
    exact UInt64.le_iff_toNat_le.1 hfits
  cases h with
  | denied e => cases hstore
  | outside hshort =>
    obtain ⟨rfl, rfl⟩ := Prod.mk.inj (List.mem_singleton.1 hstore)
    exact ⟨rfl, by omega⟩
  | @cutShort held area image count harea hcount text =>
    obtain ⟨rfl, rfl⟩ := Prod.mk.inj (List.mem_singleton.1 hstore)
    exact ⟨rfl, image.length_bytes.symm ▸ hle⟩
  | @complete held area image harea text =>
    obtain ⟨rfl, rfl⟩ := Prod.mk.inj (List.mem_singleton.1 hstore)
    exact ⟨rfl, image.length_bytes.symm ▸ hle⟩

/-- **Where training stores:** in the place of its code. -/
theorem Course.mem_stores (h : Course config registry place buf steps result t)
    (hcode : config.training = some code) {base : UInt64} {bytes : Bytes}
    (hstore : (base, bytes) ∈ seen Query.store? steps) :
    base = code.loadAddress ∧ bytes.length ≤ code.maxSize.toNat := by
  cases h with
  | notConfigured => cases hstore
  | notLocated hcode' hlocate =>
    rw [seen_of_locate hlocate fun _ h => h.keepsMemory.store] at hstore
    cases hstore
  | tooLarge hcode' hlocate hlarge =>
    rw [seen_of_locate hlocate fun _ h => h.keepsMemory.store] at hstore
    cases hstore
  | notCopied hcode' hlocate hfits hcopied =>
    obtain rfl := Option.some.inj (hcode'.symm.trans hcode)
    rw [seen_append, seen_of_locate hlocate fun _ h => h.keepsMemory.store] at hstore
    exact hcopied.mem_stores hfits hstore
  | trained hcode' hlocate hfits hcopied hanswered =>
    obtain rfl := Option.some.inj (hcode'.symm.trans hcode)
    rw [seen_append, seen_of_locate hlocate fun _ h => h.keepsMemory.store, seen_append, seen_cons,
      seen_eq_nil fun step hstep => (hanswered.collects step hstep).store?_eq_none] at hstore
    exact hcopied.mem_stores hfits (by simpa [Query.store?] using hstore)

/-- **Training code is run if all of it is in its place, and only then.**  On any platform whose
windows are as long as asked, whatever its training code answers: if the board has training code
that is found, fits its place, is granted the place and arrives there in full, the run enters it
at its place, once, and the place then holds what the flash has in the code's region.  Otherwise
no training code is entered.  At no moment of a run has training changed a byte of memory outside
of the place.  Code that is larger than its place is refused with both sizes, before any memory
is asked for and anything is read. -/
theorem run_trains_when_ready (m : Machine σ) (u : σ) (config : BootConfig) (registry : Registry)
    (place : UInt64) (buf : Buffer n)
    (hexact : ∀ step ∈ (((run config registry place).on buf).run m u).steps,
      step.WindowsExactly) :
    let r := ((run config registry place).on buf).run m u
    (∀ code region held, Ready m u config registry code region held →
      ∃ before answer after, r.steps = before ++ ⟨.train code.loadAddress, answer⟩ :: after ∧
        seen Query.train? (before ++ after) = [] ∧
        ∀ memory media : Contents, (∀ step ∈ before, step.Delivers media) →
          ∀ i < region.len.toNat, memory.after before (code.loadAddress.toNat + i) =
            media (region.offset.toNat + i)) ∧
    ((∀ code region held, ¬Ready m u config registry code region held) →
      seen Query.train? r.steps = []) ∧
    (∀ code, config.training = some code → ∀ before after, r.steps = before ++ after →
      ∀ (memory : Contents) x, memory.after before x ≠ memory x →
        code.loadAddress.toNat ≤ x ∧ x < code.loadAddress.toNat + code.maxSize.toNat) ∧
    ∀ code region, config.training = some code →
      (located m u config registry code).value = .ok region → code.maxSize < region.len.toUInt64 →
      r.value.1 = .error (.error (.tooLarge region.len.toUInt64 code.maxSize)) ∧
        seen Query.window? r.steps = [] ∧ seen Query.read? r.steps = [] := by
  intro r
  have hcourse := course_of_path (Action.path_run m (run config registry place) buf u)
  have hanswers := Firmware.answers_run m ((run config registry place).on buf) u
  refine ⟨fun code region held hready => ?_, hcourse.not_trains hanswers hexact,
    fun code hcode before after hsplit memory x hx => ?_,
    fun code region hcode hfound => hcourse.refused_of_large hanswers hcode hfound⟩
  · obtain ⟨before, answer, after, hsteps, honce, area, image, hread, hstores⟩ :=
      hcourse.split_of_ready hanswers hexact hready
    refine ⟨before, answer, after, hsteps, honce, fun memory media hdelivers i hi => ?_⟩
    have hafter : memory.after before = memory.store code.loadAddress image.bytes := by
      unfold Contents.after
      rw [hstores]
      rfl
    have hlength : i < image.bytes.length := image.length_bytes.symm ▸ hi
    rw [hafter, Contents.store_of_lt memory hlength]
    exact hdelivers _ hread (UInt32.toNat_toUInt64 region.len) ⟨i, hi⟩
  · refine Classical.byContradiction fun hout =>
      hx (memory.after_eq_of_forall fun base bytes hstore hin => hout ?_)
    have hmem : (base, bytes) ∈ seen Query.store? r.steps := by
      rw [hsplit, seen_append]
      exact List.mem_append_left _ hstore
    obtain ⟨rfl, hlen⟩ := hcourse.mem_stores hcode hmem
    omega

/-- On the bench the code arrives if it has a few bytes. -/
theorem ready_on_bench :
    Ready Rig.machine (.training [0xde, 0xad, 0xbe, 0xef] []) Rig.trainingConfig .unavailable
      Rig.trainingCode ⟨0x1000, 4⟩ [0, 0, 0, 0] where
  configured := rfl
  found := rfl
  fits := by decide
  arrives := ⟨rfl, rfl⟩

/-- It is run there when its place holds these bytes. -/
theorem run_trains_when_ready_on_bench :
    let rig := Rig.training [0xde, 0xad, 0xbe, 0xef] []
    let r := ((run Rig.trainingConfig .unavailable 0x5000).on (Buffer.zero 4)).run Rig.machine rig
    (∀ step ∈ r.steps, step.WindowsExactly) ∧
    Ready Rig.machine rig Rig.trainingConfig .unavailable Rig.trainingCode ⟨0x1000, 4⟩
      [0, 0, 0, 0] ∧
    ∃ before answer after, r.steps = before ++ ⟨.train 0x40001000, answer⟩ :: after ∧
      ∀ memory : Contents, memory.after before 0x40001000 = 0xde ∧
        memory.after before 0x40001003 = 0xef := by
  intro rig r
  have hexact : ∀ step ∈ r.steps, step.WindowsExactly := fun step hstep =>
    (Rig.exact_of_mem_steps rfl (by rintro _ ⟨⟩; decide) hstep).windowsExactly
  obtain ⟨hruns, -⟩ := run_trains_when_ready Rig.machine rig Rig.trainingConfig .unavailable 0x5000
    (Buffer.zero 4) hexact
  obtain ⟨before, answer, after, hsteps, -, hholds⟩ := hruns _ _ _ ready_on_bench
  refine ⟨hexact, ready_on_bench, before, answer, after, hsteps, fun memory => ?_⟩
  have hdelivers : ∀ step ∈ before, step.Delivers rig.flash.bytes.byteAt := fun step hstep =>
    Rig.delivers_of_mem_steps (hsteps ▸ List.mem_append_left _ hstep)
  have hbyte := hholds memory _ hdelivers
  exact ⟨hbyte 0 (by decide), hbyte 3 (by decide)⟩

end Training
end BootHandoff

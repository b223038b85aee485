/-
# The secure OS is told its real memory

The place of a copied secure OS is computed twice: by the handoff, for the
image, and again when the boot block is filled, for an image of no bytes.  The
two agree, because a placement that succeeds does not depend on the length
(`placement_eq_ok_iff`).  So what the secure OS is told, the number of bytes from
its own first byte to the end of the carveout, is right, and the difference that
is computed for it never underflows.
-/

import BootHandoff.Proofs.Bench.Steady
import BootHandoff.Proofs.Handoff.Footprint

namespace BootHandoff
namespace Handoff

open Bench Board Flash Memory Platform SecureOs Verified

variable {decoder : KeyStore.Decoder} {registry : Registry} {payload : Payload}
  {config : BootConfig} {stage : StageSpec} {tz : MibRange} {c t : Context} {steps : List Step}

/-- **The two placements agree,** and what lies between the image's start and
the carveout's end is what the carveout has behind the secure monitor's
space. -/
theorem room_of_placements {reserved len start base stop : UInt64}
    (hstart : placement tz reserved len = .ok start) (hbase : placement tz reserved 0 = .ok base)
    (hstop : tz.stopAddress = .ok stop) :
    start.toNat + (stop - base).toNat = tz.finish ∧ reserved.toNat ≤ tz.size.toNat ∧
      (stop - base).toNat = (tz.size.toNat - reserved.toNat) * 2 ^ 20 ∧
      len.toNat ≤ (stop - base).toNat := by
  obtain ⟨hstart', hend, -⟩ := placement_eq_ok_iff.1 hstart
  obtain ⟨hbase', hle, -⟩ := placement_eq_ok_iff.1 hbase
  have hfinish := MibRange.stopAddress_eq_ok_iff.1 hstop
  have hsub : (stop - base).toNat = stop.toNat - base.toNat := by
    apply UInt64.toNat_sub_of_le
    rw [UInt64.le_iff_toNat_le]
    omega
  rw [hsub, ← hfinish, ← hbase', ← hstart']
  unfold MibRange.finish MibRange.behind at *
  omega

/-- What is left of a board's addition that was filled: the block, cleaned, and
the arguments that speak of it. -/
theorem Adjusts.filled_of_tlk {place : UInt64} {block : BootBlock}
    (hextension : c.extension = .tlk place block) (h : Adjusts decoder c steps (.ok ()) t) :
    ∃ tz stop base filled, ⟨.carveout .tz, .ok tz⟩ ∈ steps ∧
      ⟨.clean ⟨place, BootBlock.layout.write filled⟩, ()⟩ ∈ steps ∧
      tz.stopAddress = .ok stop ∧ placement tz c.config.monitorSizeMib 0 = .ok base ∧
      t.extension = .tlk place filled ∧
      t.secureOsEntry.args =
        { c.secureOsEntry.args with x0 := stop - base, x1 := 0, x2 := place, x3 := magic } := by
  cases h with
  | plain hnone => cases hnone.symm.trans hextension
  | filled htlk hfill =>
    obtain ⟨rfl, -⟩ := Extension.tlk.inj (htlk.symm.trans hextension)
    rcases path_fill hfill with
      ⟨tz, stop, base, gathered, -, rfl, -, hstop, hbase, -, hargs⟩ | ⟨_, ⟨⟩, -⟩
    refine ⟨tz, stop, base, _, List.mem_cons_self, ?_, hstop, hbase, rfl, hargs⟩
    simp

/-- A secure OS that was copied: where, and with which answer about the
carveout. -/
theorem path_copySecureOs_ok {pc : UInt64}
    (h : (copySecureOs config registry stage).Path steps (.ok pc)) :
    ∃ tz len image, ⟨.carveout .tz, .ok tz⟩ ∈ steps ∧
      placement tz config.monitorSizeMib len = .ok pc ∧ image.length = len.toNat ∧
      seen Query.store? steps = [(pc, image)] := by
  rcases path_copySecureOs h with
    ⟨_, -, ⟨⟩⟩ | ⟨forImage, region, answer, rest, hlocate, rfl, hcopied⟩
  obtain ⟨tz, held, area, front, text, rfl, hplace, rfl⟩ := hcopied.ok_cases
  have hlocated : seen Query.store? forImage = [] :=
    (Image.asks_locate _ _ _).seen_eq_nil hlocate fun _ h => h.keepsMemory.store
  refine ⟨tz, region.len.toUInt64, front.bytes, by simp, hplace, ?_, ?_⟩
  · rw [front.length_bytes, UInt32.toNat_toUInt64]
  · simp only [seen_cons, seen_append, hlocated]
    rfl

/-- What a course tells a secure OS that was copied on it, if the carveout is the
same whenever it is reported. -/
theorem Course.told {jump : Jump} {place : UInt64} {block : BootBlock}
    (hextension : c.extension = .tlk place block)
    (hraw : c.config.secureOs = some ⟨stage, .raw⟩)
    (hsame : ∀ a b, ⟨.carveout .tz, a⟩ ∈ steps → ⟨.carveout .tz, b⟩ ∈ steps → a = b)
    (h : Course decoder registry payload c steps (.ok jump) t) :
    ∃ tz image filled, ⟨.carveout .tz, .ok tz⟩ ∈ steps ∧
      seen Query.store? steps = [(t.secureOsEntry.pc, image)] ∧
      t.secureOsEntry.pc.toNat + t.secureOsEntry.args.x0.toNat = tz.finish ∧
      c.config.monitorSizeMib.toNat ≤ tz.size.toNat ∧
      t.secureOsEntry.args.x0.toNat =
        (tz.size.toNat - c.config.monitorSizeMib.toNat) * 2 ^ 20 ∧
      image.length ≤ t.secureOsEntry.args.x0.toNat ∧
      t.secureOsEntry.args.x1 = 0 ∧ t.secureOsEntry.args.x2 = place ∧
      t.secureOsEntry.args.x3 = magic ∧ t.extension = .tlk place filled ∧
      ⟨.clean ⟨place, BootBlock.layout.write filled⟩, ()⟩ ∈ steps := by
  cases h with
  | alone hphase hmonitor hnone ht => cases hraw.symm.trans hnone
  | complete hphase hmonitor hsome hload hadjust ht =>
    rename_i forMonitor forSecureOs adjusting monitor secureOs pc u
    obtain rfl := Option.some.inj (hraw.symm.trans hsome)
    rcases path_loadSecureOs hload with ⟨⟨⟩, -⟩ | ⟨-, hcopy⟩
    obtain ⟨tz, len, image, hreport, hplace, hlen, hstores⟩ := path_copySecureOs_ok hcopy
    obtain ⟨tz', stop, base, filled, hreport', hclean, hstop, hbase, hfilled, hargs⟩ :=
      Adjusts.filled_of_tlk (c := c.describing pc) hextension hadjust
    obtain rfl : tz = tz' := Except.ok.inj (hsame _ _ (by simp [hreport]) (by simp [hreport']))
    obtain ⟨hend, hsize, hroom, hfits⟩ := room_of_placements hplace hbase hstop
    have hpc : t.secureOsEntry.pc = pc := by
      rw [ht]
      exact hadjust.pc
    have hargs' : t.secureOsEntry.args = _ := (congrArg (·.secureOsEntry.args) ht).trans hargs
    have hmonitor' : seen Query.store? forMonitor = [] :=
      (Image.asks_load _ _ _).seen_eq_nil hmonitor fun _ h => h.keepsMemory.store
    have hadjust' : seen Query.store? adjusting = [] := seen_eq_nil fun step hstep =>
      (hadjust.asks step hstep).keepsMemory.store
    rw [hargs', hpc]
    refine ⟨tz, image, filled, by simp [hreport], ?_, hend, hsize, hroom, hlen ▸ hfits, rfl, rfl,
      rfl, ?_, by simp [hclean]⟩
    · simp only [seen_cons, seen_append, hmonitor', hstores, hadjust']
      rfl
    · rw [ht]
      exact hfilled

/-- **The secure OS is told its real memory.**  If the platform reports the same
carveout whenever it is asked, then after a preparation that succeeds the first
argument of a copied secure OS is the number of bytes from its first byte to the
end of the carveout.  That is also what the carveout has behind the space of
the secure monitor, and the image is no longer than it.  The other arguments
name the boot block, which lies there as it was filled and cleaned. -/
theorem secureOs_told_its_memory {σ : Type} (m : Machine σ) (s : σ)
    (decoder : KeyStore.Decoder) (registry : Registry) (payload : Payload) (c : Context)
    (stage : StageSpec) {place : UInt64} {block : BootBlock}
    (hextension : c.extension = .tlk place block)
    (hraw : c.config.secureOs = some ⟨stage, .raw⟩) :
    let r := ((prepare decoder registry payload).on c).run m s
    (∀ a b, ⟨.carveout .tz, a⟩ ∈ r.steps → ⟨.carveout .tz, b⟩ ∈ r.steps → a = b) →
    ∀ jump, r.value.1 = .ok jump →
      let entry := r.value.2.secureOsEntry
      ∃ tz image filled, ⟨.carveout .tz, .ok tz⟩ ∈ r.steps ∧
        seen Query.store? r.steps = [(entry.pc, image)] ∧
        entry.pc.toNat + entry.args.x0.toNat = tz.finish ∧
        c.config.monitorSizeMib.toNat ≤ tz.size.toNat ∧
        entry.args.x0.toNat = (tz.size.toNat - c.config.monitorSizeMib.toNat) * 2 ^ 20 ∧
        image.length ≤ entry.args.x0.toNat ∧
        entry.args.x1 = 0 ∧ entry.args.x2 = place ∧ entry.args.x3 = 0xcafebabe ∧
        r.value.2.extension = .tlk place filled ∧
        ⟨.clean ⟨place, BootBlock.layout.write filled⟩, ()⟩ ∈ r.steps := by
  intro r hsame jump hjump entry
  have hcustom : c.extension ≠ .custom := by
    rw [hextension]
    nofun
  have hcourse := course_of_run hcustom hjump
  exact hcourse.told hextension hraw hsame

/-- The hypotheses are satisfiable: the bench's memory map gives the same answer
both times, and a handoff with a boot block gets as far as the jump. -/
theorem secureOs_told_its_memory_on_bench :
    let c := Context.onBench (Rig.config false) (.tlk 0x4000 .zero)
    let r := ((prepare KeyStore.decodeOver .unavailable .onBench).on c).run Rig.machine Rig.stocked
    (∀ a b, ⟨.carveout .tz, a⟩ ∈ r.steps → ⟨.carveout .tz, b⟩ ∈ r.steps → a = b) ∧
    ∃ jump, r.value.1 = .ok jump ∧
      let entry := r.value.2.secureOsEntry
      ∃ tz image filled, ⟨.carveout .tz, .ok tz⟩ ∈ r.steps ∧
        seen Query.store? r.steps = [(entry.pc, image)] ∧
        entry.pc.toNat + entry.args.x0.toNat = tz.finish ∧
        c.config.monitorSizeMib.toNat ≤ tz.size.toNat ∧
        entry.args.x0.toNat = (tz.size.toNat - c.config.monitorSizeMib.toNat) * 2 ^ 20 ∧
        image.length ≤ entry.args.x0.toNat ∧
        entry.args.x1 = 0 ∧ entry.args.x2 = 0x4000 ∧ entry.args.x3 = 0xcafebabe ∧
        r.value.2.extension = .tlk 0x4000 filled ∧
        ⟨.clean ⟨0x4000, BootBlock.layout.write filled⟩, ()⟩ ∈ r.steps := by
  intro c r
  have hsame : ∀ a b, ⟨.carveout .tz, a⟩ ∈ r.steps → ⟨.carveout .tz, b⟩ ∈ r.steps → a = b :=
    fun a b ha hb => (Rig.carveout_eq ha).trans (Rig.carveout_eq hb).symm
  have hjump : r.value.1 = .ok ⟨0x40000000, 0x1000, 0⟩ := by
    unfold r c
    rfl
  have htold := secureOs_told_its_memory Rig.machine Rig.stocked KeyStore.decodeOver
    .unavailable .onBench c secureOsStage rfl rfl hsame _ hjump
  unfold r at *
  exact ⟨hsame, _, hjump, htold⟩

end Handoff
end BootHandoff

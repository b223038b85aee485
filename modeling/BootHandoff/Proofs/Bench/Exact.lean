/-
# The bench keeps its promises

A window of the bench's memory, and a mapping of its flash where the chip is
not told to show less, has exactly the length that was asked for: what was
written to a bank lies over its background and changes no length
(`Bank.length_read`).  So on a bench with a small trusted carveout every answer
is `Step.Exact`, whatever is run.
-/

import BootHandoff.Proofs.Bench.Steady
import BootHandoff.Proofs.Platform.Faults
import BootHandoff.Proofs.Platform.Parts

namespace BootHandoff
namespace Bench

open Platform

theorem Bank.length_overlay (start : Nat) (view : Bytes) (place : Nat) (bs : Bytes) :
    (overlay start view place bs).length = view.length := by
  unfold overlay
  split
  · rfl
  · split
    · simp only [List.length_append, List.length_take, List.length_drop]
      omega
    · simp only [List.length_append, List.length_take, List.length_drop]
      omega

theorem Bank.length_read (b : Bank) (start len : Nat) : (b.read start len).length = len := by
  unfold read
  induction b.writes with
  | nil => exact List.length_replicate
  | cons write rest ih => rw [List.foldr_cons, length_overlay, ih]

theorem Dram.length_of_window {d : Dram} {address len : UInt64} {held : Bytes}
    (h : d.window address len = .ok held) : held.length = len.toNat := by
  unfold window at h
  split at h
  · rw [← Except.ok.inj h]
    exact Bank.length_read _ _ _
  · cases h

theorem FlashChip.length_of_map {f : FlashChip} {offset len : UInt32} {shown : Bytes}
    (hlimit : f.mapLimit = none) (h : f.map offset len = .ok shown) :
    shown.length = len.toNat := by
  unfold map at h
  split at h
  · rw [← Except.ok.inj h, Bank.length_read, hlimit]
    rfl
  · cases h

namespace Rig

variable {α : Type}

theorem respond_mapLimit (q : Query) (r : Rig) :
    (respond q r).2.flash.mapLimit = r.flash.mapLimit := by
  cases q with
  | openFlash =>
    show r.flash.open.2.mapLimit = _
    unfold FlashChip.open
    split <;> rfl
  | _ => rfl

/-- **Every answer of a bench with a small carveout keeps the promises.** -/
theorem exact_of_mem_steps {x : Firmware α} {r : Rig} (hlimit : r.flash.mapLimit = none)
    (htz : ∀ tz, r.soc.tz = .ok tz → tz.finish < 2 ^ 64) {step : Step}
    (hstep : step ∈ (x.run machine r).steps) : step.Exact := by
  obtain ⟨t, ⟨hmap, hsoc⟩, hanswer⟩ := Firmware.answered_of_invariant
    (I := fun t => t.flash.mapLimit = none ∧ t.soc = r.soc)
    (fun q s hs => ⟨(respond_mapLimit q s).trans hs.1, (respond_soc q s).trans hs.2⟩)
    ⟨hlimit, rfl⟩ hstep
  obtain ⟨q, answer⟩ := step
  cases q with
  | mapFlash offset len =>
    cases answer with
    | ok shown => exact FlashChip.length_of_map hmap hanswer.symm
    | error e => trivial
  | window base len =>
    cases answer with
    | ok held => exact Dram.length_of_window hanswer.symm
    | error e => trivial
  | carveout which =>
    cases which with
    | tz =>
      cases answer with
      | ok tz =>
        have hreported : t.soc.tz = .ok tz := hanswer.symm
        exact htz tz (hsoc ▸ hreported)
      | error e => trivial
    | _ => trivial
  | _ => trivial

end Rig
end Bench
end BootHandoff

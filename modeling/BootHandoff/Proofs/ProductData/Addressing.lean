/-
# Product data at the end of the address space

Nothing in a flash map says that an area ends within the 32-bit words.  For the root key that
does not matter, as `Region.subrange?` refuses a part of an area that has no address.  The place
of the product data is a sum of the same kind, but of all the sums that are made for it, only
the size in a header is added up with care.  The two that give the place are not, and where one
of them leaves the 32-bit words, the device halts.

| without an address | at byte `600` | looking for the data ends |
| --- | --- | --- |
| byte `600` of the area | not looked at | with a halt |
| byte `610` of the area | a header that fits | with a halt |
| byte `610` of the area | anything else | with the rest of the area |
| none of them | anything | with a region |

`fromFlash_ends` says that these are all the halts there are, and that no area that ends within
the 32-bit words meets with one; `fromFlash_at_end_of_words` has one that does.
-/

import BootHandoff.Proofs.ProductData.Locating

namespace BootHandoff
namespace ProductData

open Bench Flash Platform

variable {ε σ : Type} {m : Machine σ} {u : σ} {area : Region} {steps : List Step} {stop : Stop ε}

/-- The area is large enough for data, and the place for it there is not an address. -/
structure Unaddressable (m : Machine σ) (u : σ) (area : Region) : Prop where
  large : 0x610 < area.len.toNat
  beyond : 2 ^ 32 ≤ area.offset.toNat + 0x600 ∨
    2 ^ 32 ≤ area.offset.toNat + 0x610 ∧ ∃ size, Announced m u area size

/-- An area that ends within the 32-bit words has addresses for all of its bytes. -/
theorem not_unaddressable (h : area.offset.toNat + area.len.toNat ≤ 2 ^ 32) :
    ¬Unaddressable m u area := by
  rintro ⟨hlarge, hbeyond | ⟨hbeyond, -⟩⟩ <;> omega

namespace Located

variable {result : Except (Stop ε) (Option Region)}

/-- **Looking for data ends without a value where the data has no address,** and nowhere
else. -/
theorem error_iff (h : Located area steps result) (hanswers : m.Answers u steps) :
    result = .error stop ↔ stop = .halt .overflow ∧ Unaddressable m u area := by
  cases h with
  | small hsmall =>
    exact iff_of_false nofun fun h => absurd h.2.large (Nat.not_lt.2 hsmall)
  | beyond hlarge hbeyond =>
    rw [Except.error.injEq, eq_comm]
    exact (and_iff_left ⟨hlarge, .inl hbeyond⟩).symm
  | @announced base offset size answer hlarge hbase hannounces hoffset =>
    -- Both places are words, so neither is beyond them.
    have := base.toNat_lt
    have := offset.toNat_lt
    refine iff_of_false nofun ?_
    rintro ⟨-, -, hbeyond | ⟨hbeyond, -⟩⟩ <;> omega
  | announcedBeyond hlarge hbase hannounces hbeyond =>
    have hannounced := (announced_iff hbase hanswers).2 hannounces
    rw [Except.error.injEq, eq_comm]
    exact (and_iff_left ⟨hlarge, .inr ⟨hbeyond, _, hannounced⟩⟩).symm
  | @rest base len answer hlarge hbase hnone hlen =>
    have := base.toNat_lt
    refine iff_of_false nofun ?_
    rintro ⟨-, -, hbeyond | ⟨-, size, hannounced⟩⟩
    · omega
    · exact hnone size ((announced_iff hbase hanswers).1 hannounced)

theorem eq_none_of_small (h : Located area steps result) (hsmall : area.len.toNat ≤ 0x610) :
    result = .ok none := by
  cases h with
  | small => rfl
  | beyond hlarge | announced hlarge | announcedBeyond hlarge | rest hlarge =>
    exact absurd hlarge (Nat.not_lt.2 hsmall)

/-- In an area that is large enough there is data, if it has an address. -/
theorem exists_region (h : Located area steps result) (hanswers : m.Answers u steps)
    (hlarge : 0x610 < area.len.toNat) (haddressable : ¬Unaddressable m u area) :
    ∃ region, result = .ok (some region) := by
  obtain stop | _ | region := result
  · exact absurd ((h.error_iff hanswers).1 rfl).2 haddressable
  · exact absurd hlarge (Nat.not_lt.2 (h.eq_none_iff.1 rfl))
  · exact ⟨region, rfl⟩

end Located

namespace Shown

variable {found : Except (Stop ε) (Option Region)} {result : Except (Stop ε) (Option Bytes)}

/-- Only the search for the data can halt, not what is done with it. -/
theorem error_iff (h : Shown found steps result) : result = .error stop ↔ found = .error stop := by
  cases h with
  | halted => rw [Except.error.injEq, Except.error.injEq]
  | nowhere | mapped => exact iff_of_false nofun nofun

theorem eq_none_of_none (h : Shown found steps result) (hfound : found = .ok none) :
    result = .ok none := by
  cases h with
  | nowhere => rfl
  | halted | mapped => cases hfound

/-- Data that was located is what the flash shows of it. -/
theorem mapped_of_some {region : Region} (h : Shown found steps result)
    (hfound : found = .ok (some region)) :
    ∃ shown, ⟨.mapFlash region.offset region.len, shown⟩ ∈ steps ∧
      result = .ok shown.toOption := by
  cases h with
  | halted | nowhere => cases hfound
  | mapped shown hreport =>
    cases hfound
    exact ⟨shown, List.mem_cons_self, rfl⟩

end Shown

namespace Fetched

variable {result : Except (Stop ε) (Option Bytes)}

/-- Fetching the data ends as the search in the area that is found. -/
theorem search (h : Fetched steps result) (hanswers : m.Answers u steps) :
    ((m.respond (.findArea areaName) u).1 = none ∧ result = .ok none) ∨
    ∃ area locating rest found, (m.respond (.findArea areaName) u).1 = some area ∧
      m.Answers (m.respond (.findArea areaName) u).2 locating ∧ Located area locating found ∧
      Shown found rest result ∧ rest ⊆ steps := by
  cases h with
  | noArea text => exact .inl ⟨hanswers.1.symm, rfl⟩
  | @inArea area locating rest found result hlocated hshown =>
    exact .inr ⟨area, locating, rest, found, hanswers.1.symm,
      (Machine.answers_append.1 hanswers.2).1, hlocated, hshown,
      fun _ hstep => List.mem_cons_of_mem _ (List.mem_append_right _ hstep)⟩

end Fetched

/-- **All the halts over product data.**  Looking for it in an area, and fetching it, halts where
its place is no address, and nowhere else, so never over an area that ends within the 32-bit
words.  Without an area, and in an area that is too small, there is no data; and in every other
one the data is what the flash shows, and none if it shows nothing. -/
theorem fromFlash_ends (m : Machine σ) (u : σ) (area : Region) :
    let located := ((locate area : Task ε (Option Region)).run.run m u).value
    let find := m.respond (.findArea areaName) u
    let fetched := (fromFlash : Task ε (Option Bytes)).run.run m u
    (∀ stop, located = .error stop ↔ stop = .halt .overflow ∧ Unaddressable m u area) ∧
    (∀ stop, fetched.value = .error stop ↔
      stop = .halt .overflow ∧ ∃ area, find.1 = some area ∧ Unaddressable m find.2 area) ∧
    ((∀ area, find.1 = some area → area.len.toNat ≤ 0x610) → fetched.value = .ok none) ∧
    (∀ area, find.1 = some area → 0x610 < area.len.toNat → ¬Unaddressable m find.2 area →
      ∃ offset len shown, ⟨.mapFlash offset len, shown⟩ ∈ fetched.steps ∧
        fetched.value = .ok shown.toOption) ∧
    (area.offset.toNat + area.len.toNat ≤ 2 ^ 32 → ¬Unaddressable m u area) := by
  intro located find fetched
  have hlocated : Located area _ located := located_of_path (Firmware.path_run m _ u)
  have hfetched : Fetched fetched.steps fetched.value := fetched_of_path (Firmware.path_run m _ u)
  -- What is said of fetching is said for no area and for the one that is found.
  refine ⟨fun stop => hlocated.error_iff (Firmware.answers_run m _ u), fun stop => ?_,
    fun hsmall => ?_, fun area harea hlarge haddressable => ?_, not_unaddressable⟩ <;>
    rcases hfetched.search (Firmware.answers_run m _ u) with ⟨hnone, hvalue⟩ |
      ⟨found, locating, rest, result, hfound, hanswers, hlocated, hshown, hrest⟩
  · rw [hvalue]
    refine iff_of_false nofun ?_
    rintro ⟨-, area, harea, -⟩
    cases hnone.symm.trans harea
  · rw [hshown.error_iff, hlocated.error_iff hanswers]
    refine and_congr_right' ⟨fun h => ⟨found, hfound, h⟩, ?_⟩
    rintro ⟨area, harea, h⟩
    rwa [Option.some.inj (hfound.symm.trans harea)]
  · exact hvalue
  · exact hshown.eq_none_of_none (hlocated.eq_none_of_small (hsmall found hfound))
  · cases hnone.symm.trans harea
  · obtain rfl := Option.some.inj (hfound.symm.trans harea)
    obtain ⟨region, hregion⟩ := hlocated.exists_region hanswers hlarge haddressable
    obtain ⟨shown, hmem, hvalue⟩ := hshown.mapped_of_some hregion
    exact ⟨region.offset, region.len, shown, hrest hmem, hvalue⟩

/-- The hypotheses are satisfiable: on the standard bench there is no area, and on one with
product data its four bytes are what the flash shows. -/
theorem fromFlash_ends_on_bench :
    let r := Rig.withProductData (magic.bytes ++ [4, 0, 0, 0, 1, 0, 0, 9])
    let fetched := fun r => (fromFlash : Task Unit (Option Bytes)).run.run Rig.machine r
    (fetched Rig.standard).value = .ok none ∧ ¬Unaddressable Rig.machine r ⟨0x1000, 0x1000⟩ ∧
    ∃ offset len shown, ⟨.mapFlash offset len, shown⟩ ∈ (fetched r).steps ∧
      (fetched r).value = .ok shown.toOption := by
  intro r fetched
  obtain ⟨-, -, hnone, -, -⟩ := @fromFlash_ends Unit Rig Rig.machine Rig.standard ⟨0, 0⟩
  obtain ⟨-, -, -, hshown, haddressable⟩ :=
    @fromFlash_ends Unit Rig Rig.machine r ⟨0x1000, 0x1000⟩
  have haddressable := haddressable (by decide)
  exact ⟨hnone nofun, haddressable, hshown ⟨0x1000, 0x1000⟩ rfl (by decide) haddressable⟩

/-- **An area may reach past the 32-bit words.**  In this one, of 1792 bytes and 1536 bytes below
the end of the words, no byte at the place of the data has an address.  To ask for that part of
it is refused; to look for the data there halts, where a missing area would be no data. -/
theorem fromFlash_at_end_of_words :
    let area : Region := ⟨0xfffffa00, 0x700⟩
    let r := { Rig.standard with flash := Rig.standard.flash.addArea areaName area }
    let fetched := fun r => ((fromFlash : Task Unit (Option Bytes)).run.run Rig.machine r).value
    area.subrange? 0x600 0x100 = none ∧
      ((locate area : Task Unit (Option Region)).run.run Rig.machine r).value =
        .error (.halt .overflow) ∧
      fetched r = .error (.halt .overflow) ∧ fetched .standard = .ok none := by
  intro area r fetched
  exact ⟨by decide, by decide +kernel, by decide +kernel, by decide +kernel⟩

end ProductData
end BootHandoff

/-
# What the registry says of an image

For an image that a board may name, the registry gives one of two answers: it
`Keeps` a verified image in the slot, or it `Lacks` one, because there is no
record or because the slot is empty.  An index outside of the slots is neither
and halts.
-/

import BootHandoff.Verified.Registry

namespace BootHandoff
namespace Verified

theorem Component.isPresent_iff {c : Component} : c.isPresent = true ↔ c.size ≠ 0 := bne_iff_ne

theorem Component.isPresent_eq_false_iff {c : Component} : c.isPresent = false ↔ c.size = 0 :=
  bne_eq_false_iff_eq

namespace Registry

variable {r : Registry} {index : UInt8} {c : Component}

/-- The registry has a verified image in a slot. -/
def Keeps (r : Registry) (index : UInt8) (c : Component) : Prop :=
  ∃ record, r.record = some record ∧ record.components[index.toNat]? = some c ∧ c.size ≠ 0

/-- The registry has no verified image in a slot: there is no record, or the
size in the slot is zero. -/
def Lacks (r : Registry) (index : UInt8) : Prop :=
  r.record = none ∨
    ∃ record c, r.record = some record ∧ record.components[index.toNat]? = some c ∧ c.size = 0

theorem verified_of_lt {record : Record} (hrecord : r.record = some record)
    (h : index.toNat < 6) :
    r.verified index = .ok ((some record.components[index.toNat]).filter Component.isPresent) := by
  unfold verified component
  rw [dif_pos h, hrecord]
  rfl

theorem verified_of_record_eq_none (hrecord : r.record = none) (h : index.toNat < 6) :
    r.verified index = .ok none := by
  unfold verified component
  rw [dif_pos h, hrecord]
  rfl

theorem verified_of_le (h : 6 ≤ index.toNat) : r.verified index = .error .assertionFailed := by
  unfold verified component
  rw [dif_neg (Nat.not_lt.2 h)]
  rfl

/-- What the registry keeps in a slot it says. -/
theorem verified_of_keeps (h : r.Keeps index c) : r.verified index = .ok (some c) := by
  obtain ⟨record, hrecord, hslot, hsize⟩ := h
  have hlt : index.toNat < 6 := (Vector.getElem?_eq_some_iff.1 hslot).1
  rw [Vector.getElem?_eq_getElem hlt] at hslot
  rw [verified_of_lt hrecord hlt, Option.some.inj hslot,
    Option.filter_some_pos (Component.isPresent_iff.2 hsize)]

/-- Of a slot that is not there or empty the registry says that there is nothing. -/
theorem verified_of_lacks (h : r.Lacks index) (hlt : index.toNat < 6) :
    r.verified index = .ok none := by
  rcases h with hrecord | ⟨record, c, hrecord, hslot, hsize⟩
  · exact verified_of_record_eq_none hrecord hlt
  · rw [Vector.getElem?_eq_getElem hlt] at hslot
    rw [verified_of_lt hrecord hlt, Option.some.inj hslot,
      Option.filter_some_neg (Component.isPresent_eq_false_iff.2 hsize)]

/-- **The three answers of the registry.** -/
theorem verified_cases (r : Registry) (index : UInt8) :
    (6 ≤ index.toNat ∧ r.verified index = .error .assertionFailed) ∨
      (r.Lacks index ∧ r.verified index = .ok none) ∨
      ∃ c, r.Keeps index c ∧ r.verified index = .ok (some c) := by
  rcases Nat.lt_or_ge index.toNat 6 with hlt | hge
  · refine .inr ?_
    cases hrecord : r.record with
    | none => exact .inl ⟨.inl hrecord, verified_of_record_eq_none hrecord hlt⟩
    | some record =>
      have hslot : record.components[index.toNat]? = some record.components[index.toNat] :=
        Vector.getElem?_eq_getElem hlt
      by_cases hsize : record.components[index.toNat].size = 0
      · have hlacks : r.Lacks index := .inr ⟨record, _, hrecord, hslot, hsize⟩
        exact .inl ⟨hlacks, verified_of_lacks hlacks hlt⟩
      · have hkeeps : r.Keeps index _ := ⟨record, hrecord, hslot, hsize⟩
        exact .inr ⟨_, hkeeps, verified_of_keeps hkeeps⟩
  · exact .inl ⟨hge, verified_of_le hge⟩

/-- The registry halts for an index outside of its slots, and for nothing
else. -/
theorem verified_eq_error_iff {halt : Halt} :
    r.verified index = .error halt ↔ 6 ≤ index.toNat ∧ halt = .assertionFailed := by
  constructor
  · intro h
    rcases r.verified_cases index with ⟨hle, hslot⟩ | ⟨-, hslot⟩ | ⟨c, -, hslot⟩ <;>
      rw [hslot] at h <;> cases h
    exact ⟨hle, rfl⟩
  · rintro ⟨hle, rfl⟩
    exact verified_of_le hle

/-- **Nothing is told apart by what is not there:** all registries without an
image in a slot say the same of it. -/
theorem verified_eq_of_lacks {r' : Registry} (h : r.Lacks index) (h' : r'.Lacks index) :
    r.verified index = r'.verified index := by
  rcases Nat.lt_or_ge index.toNat 6 with hlt | hge
  · rw [verified_of_lacks h hlt, verified_of_lacks h' hlt]
  · rw [verified_of_le hge, verified_of_le hge]

/-- Two records that have the same image in a slot, or none, say the same of
it. -/
theorem verified_eq_of_slots {record record' : Record}
    (h : ∀ hlt : index.toNat < 6, record.components[index.toNat] = record'.components[index.toNat] ∨
      record.components[index.toNat].size = 0 ∧ record'.components[index.toNat].size = 0) :
    (⟨some record⟩ : Registry).verified index = (⟨some record'⟩ : Registry).verified index := by
  rcases Nat.lt_or_ge index.toNat 6 with hlt | hge
  · rcases h hlt with hsame | ⟨hsize, hsize'⟩
    · rw [verified_of_lt rfl hlt, verified_of_lt rfl hlt, hsame]
    · exact verified_eq_of_lacks (.inr ⟨record, _, rfl, Vector.getElem?_eq_getElem hlt, hsize⟩)
        (.inr ⟨record', _, rfl, Vector.getElem?_eq_getElem hlt, hsize'⟩)
  · rw [verified_of_le hge, verified_of_le hge]

/-- An empty slot is as good as no record. -/
theorem verified_eq_unavailable {record : Record}
    (h : ∀ hlt : index.toNat < 6, record.components[index.toNat].size = 0) :
    (⟨some record⟩ : Registry).verified index = unavailable.verified index := by
  rcases Nat.lt_or_ge index.toNat 6 with hlt | hge
  · exact verified_eq_of_lacks
      (.inr ⟨record, _, rfl, Vector.getElem?_eq_getElem hlt, h hlt⟩) (.inl rfl)
  · rw [verified_of_le hge, verified_of_le hge]

end Registry
end Verified
end BootHandoff

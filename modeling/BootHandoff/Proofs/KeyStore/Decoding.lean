/-
# What a decoder is relied on for

The key store is decoded in place, by a decoder that may be any code.  All that is relied
on is that it tells texts that spell bytes from all others: the first it decodes, and of the
others it refuses those of odd length and those with a byte that is no digit
(`Decoder.Lawful`).  What it has written to its area before it refuses a text, nobody relies
on.

The decoder of this library keeps to it (`lawful_decodeOver`).  It has then written the
bytes before the first one that is no digit, so the area has to be cleaned up after it.
-/

import BootHandoff.Proofs.KeyStore.Spelling

namespace BootHandoff
namespace KeyStore

variable {decoder : Decoder} {text bytes : Bytes}

/-- A decoder that decodes the texts that spell bytes, and refuses every text of odd length and
every text with a byte that is no digit. -/
structure Decoder.Lawful (decoder : Decoder) : Prop where
  decodes : ∀ {text bytes : Bytes} (area : Buffer (text.length / 2)), Spells text bytes →
    ∃ held, decoder text area = (.ok (), held) ∧ held.bytes = bytes
  odd : ∀ {text : Bytes} (area : Buffer (text.length / 2)), text.length % 2 = 1 →
    ∃ e held, decoder text area = (.error e, held)
  noDigit : ∀ {text : Bytes} (area : Buffer (text.length / 2)), (∃ b ∈ text, digit? b = none) →
    ∃ e held, decoder text area = (.error e, held)

/-- **A lawful decoder decodes or refuses a text,** according to whether it spells bytes. -/
theorem Decoder.Lawful.cases (h : decoder.Lawful) (text : Bytes)
    (area : Buffer (text.length / 2)) :
    (∃ bytes held, Spells text bytes ∧ decoder text area = (.ok (), held) ∧ held.bytes = bytes) ∨
    ∃ e held, (∀ bytes, ¬Spells text bytes) ∧ decoder text area = (.error e, held) := by
  by_cases heven : text.length % 2 = 0
  · by_cases hdigits : ∀ b ∈ text, (digit? b).isSome
    · obtain ⟨bytes, hspells⟩ := exists_spells heven hdigits
      obtain ⟨held, hdecode, hheld⟩ := h.decodes area hspells
      exact .inl ⟨bytes, held, hspells, hdecode, hheld⟩
    · have hbad : ∃ b ∈ text, digit? b = none := by simpa using hdigits
      obtain ⟨e, held, hrefuse⟩ := h.noDigit area hbad
      exact .inr ⟨e, held, fun bytes hspells => hdigits fun b => hspells.isSome_of_mem, hrefuse⟩
  · obtain ⟨e, held, hrefuse⟩ := h.odd area (by omega)
    refine .inr ⟨e, held, fun bytes hspells => ?_, hrefuse⟩
    have := hspells.length_eq
    omega

/-- The decoder of this library refuses every text that spells no bytes. -/
theorem decodeOver_of_forall_not (h : ∀ bytes, ¬Spells text bytes)
    (area : Buffer (text.length / 2)) : ∃ e held, decodeOver text area = (.error e, held) := by
  unfold decodeOver
  cases hdecode : decode text with
  | ok bytes => exact absurd (decode_eq_ok_iff.1 hdecode) (h bytes)
  | error e => cases e <;> exact ⟨_, _, rfl⟩

theorem lawful_decodeOver : decodeOver.Lawful where
  decodes {text bytes} area hspells := by
    have hlength : bytes.length = text.length / 2 := by
      have := hspells.length_eq
      omega
    refine ⟨area.overwrite bytes, ?_, Buffer.bytes_overwrite_of_eq area hlength⟩
    unfold decodeOver
    rw [decode_eq_ok_iff.2 hspells]
  odd area hodd := by
    refine decodeOver_of_forall_not (fun bytes hspells => ?_) area
    have := hspells.length_eq
    omega
  noDigit := by
    rintro text area ⟨b, hb, hnone⟩
    refine decodeOver_of_forall_not (fun bytes hspells => ?_) area
    have hsome := hspells.isSome_of_mem hb
    rw [hnone] at hsome
    cases hsome

end KeyStore
end BootHandoff

/-
# The key store is decoded, or the buffer is wiped

A decoder works on the caller's own buffer, so what it has written before it
refuses a digit is part of a key store, where nobody asked for one.  Reading leaves
none of it behind: either the whole value is decoded, or the buffer is zero.

Which of the two it is, and with which error, is told by the value alone
(`readWith_decodes_or_wipes`).  That the value is too long is found before it is looked
at, so a value that is both too long and no text of digits counts as too long.
-/

import BootHandoff.Proofs.Bench.Steady
import BootHandoff.Proofs.KeyStore.Reading
import BootHandoff.Proofs.Platform.Replay

namespace BootHandoff
namespace KeyStore

open Bench Platform

variable {n : Nat} {text bytes : Bytes}

/-- A buffer that holds the bytes that a text of digits stands for, digit by digit, and zeros
behind them. -/
structure DecodedTo (text : Bytes) (held : Buffer n) : Prop where
  digits : ∀ i : Fin n, 2 * i.val < text.length → ∃ h l,
    text[2 * i.val]?.bind digit? = some h ∧ text[2 * i.val + 1]?.bind digit? = some l ∧
      (held.get i).toNat = 16 * h.toNat + l.toNat
  zeros : ∀ i : Fin n, text.length ≤ 2 * i.val → held.get i = 0

/-- The digits of one of the bytes that a text spells. -/
theorem Spells.digits (h : Spells text bytes) {i : Nat} {b : UInt8} (hb : bytes[i]? = some b) :
    ∃ h l, text[2 * i]?.bind digit? = some h ∧ text[2 * i + 1]?.bind digit? = some l ∧
      b.toNat = 16 * h.toNat + l.toNat := by
  induction h generalizing i with
  | nil => cases hb
  | cons hhi hlo hbyte _ ih =>
    cases i with
    | zero =>
      obtain rfl := Option.some.inj hb
      exact ⟨_, _, hhi, hlo, hbyte⟩
    | succ i => exact ih hb

theorem Spells.decodedTo (h : Spells text bytes) (hroom : bytes.length ≤ n) :
    DecodedTo text (Buffer.ofFront n bytes) := by
  have hlength := h.length_eq
  have hget : ∀ i : Fin n, (bytes ++ List.replicate (n - bytes.length) 0)[i.val]? =
      some ((Buffer.ofFront n bytes).get i) := fun i => by
    rw [← Buffer.bytes_ofFront_of_le hroom, Buffer.getElem?_bytes]
  constructor
  · intro i hi
    refine h.digits ?_
    rw [← hget i, List.getElem?_append_left (by omega)]
  · intro i hi
    refine Option.some.inj ((hget i).symm.trans ?_)
    rw [List.getElem?_append_right (by omega), List.getElem?_replicate, if_pos (by omega)]

/-- **Reading the key store decodes all of it, or wipes the buffer.**  On any platform, however
the product data is looked up and whatever the buffer held, reading returns `k` exactly if the
product data has a value of `2 * k` digits and the buffer has room for `k` bytes.  The buffer
then holds the byte that each two digits stand for, and zeros behind them.  Otherwise every byte
of the buffer is zero, and the error says that there is no value, or else that it is longer than
twice the buffer, or else that it is no text of digits; all of this whatever the decoder has
written before it refused the value. -/
theorem readWith_decodes_or_wipes {decoder : Decoder} (hlawful : decoder.Lawful) {σ : Type}
    (m : Machine σ) (u : σ) (find : String → Firmware (Option Bytes)) (buf : Buffer n) :
    let r := ((readWith decoder find : Action (Buffer n) Error Nat).on buf).run m u
    let value? := ((find key).run m u).value
    (∀ k, r.value.1 = .ok k ↔ ∃ text, value? = some text ∧
      text.length = 2 * k ∧ k ≤ n ∧ ∀ b ∈ text, (digit? b).isSome) ∧
    (∀ k, r.value.1 = .ok k → ∀ text, value? = some text → DecodedTo text r.value.2) ∧
    ((∀ k, r.value.1 ≠ .ok k) → r.value.2 = Buffer.zero n ∧ r.value.1 = .error (.error
      (match value? with
        | none => .missing
        | some text => if 2 * n < text.length then .tooLong text.length n else .undecodable))) := by
  intro r value?
  obtain ⟨asked, found?, rest, hsteps, hasked, hends⟩ :=
    hlawful.path_readWith (Action.path_run m (readWith decoder find) buf u)
  have hanswers := Firmware.answers_run m ((readWith decoder find : Action _ Error _).on buf) u
  rw [hsteps, Machine.answers_append] at hanswers
  have hvalue : value? = found? :=
    congrArg Outcome.value (Firmware.run_eq_of_path hasked hanswers.1)
  clear_value value?
  subst hvalue
  rcases hends with ⟨text, bytes, rfl, -, ⟨hroom, heven, hdigits⟩, hspells, hresult, hheld⟩ |
    ⟨_, _, -, hnot, hresult, hheld⟩
  · have hlength := hspells.length_eq
    refine ⟨fun k => ?_, ?_, fun hfails => absurd hresult (hfails _)⟩
    · rw [hresult]
      constructor
      · rintro ⟨⟩
        exact ⟨text, rfl, hlength, by omega, hdigits⟩
      · rintro ⟨_, ⟨⟩, hk, -⟩
        rw [show bytes.length = k by omega]
    · rintro k - _ ⟨⟩
      rw [hheld]
      exact hspells.decodedTo (by omega)
  · refine ⟨fun k => ⟨fun hok => ?_, ?_⟩, fun k hok => ?_, fun _ => ⟨hheld, ?_⟩⟩
    · cases hresult.symm.trans hok
    · rintro ⟨text, rfl, hk, hle, hdigits⟩
      exact absurd ⟨by omega, by omega, hdigits⟩ (hnot text rfl)
    · cases hresult.symm.trans hok
    · rw [hresult]
      cases value? with
      | none => rfl
      | some text =>
        by_cases hlong : 2 * n < text.length
        · simp only [failure, if_pos hlong, if_neg (Nat.not_le.2 hlong)]
        · simp only [failure, if_neg hlong, if_pos (Nat.not_lt.1 hlong)]

/-- The decoder of this library can be relied on, and it does write before it refuses: of the
second value here two bytes, which are gone afterwards. -/
theorem readWith_decodes_or_wipes_on_bench :
    let reads (digits : String) := (((readWith decodeOver Firmware.productData :
      Action (Buffer 3) Error Nat).on (Buffer.fill 3 0xaa)).run Rig.machine
        (.provisioned [] digits)).value
    decodeOver.Lawful ∧
    ((reads "0aF0").1 = .ok 2 ∧ DecodedTo (Bytes.ofText "0aF0") (reads "0aF0").2) ∧
    ((decodeOver (Bytes.ofText "0aF0x7") (Buffer.zero 3)).2.bytes = [0x0a, 0xf0, 0x00] ∧
      (reads "0aF0x7").2 = Buffer.zero 3) ∧
    (reads "0aF0x7b").1 = .error (.error (.tooLong 7 3)) := by
  intro reads
  have hreads := fun digits => readWith_decodes_or_wipes lawful_decodeOver Rig.machine
    (.provisioned [] digits) Firmware.productData (Buffer.fill 3 0xaa)
  refine ⟨lawful_decodeOver, ?_, ⟨rfl, ?_⟩, ?_⟩
  · obtain ⟨hok, hdecoded, -⟩ := hreads "0aF0"
    have hspells : Spells (Bytes.ofText "0aF0") [0x0a, 0xf0] := decode_eq_ok_iff.1 rfl
    have hvalue : (reads "0aF0").1 = .ok 2 :=
      (hok 2).2 ⟨Bytes.ofText "0aF0", rfl, rfl, by decide, fun b => hspells.isSome_of_mem⟩
    exact ⟨hvalue, hdecoded 2 hvalue _ rfl⟩
  · obtain ⟨hok, -, hwiped⟩ := hreads "0aF0x7"
    refine (hwiped fun k hk => ?_).1
    obtain ⟨text, ⟨⟩, -, -, hdigits⟩ := (hok k).1 hk
    have hx : (0x78 : UInt8) ∈ Bytes.ofText "0aF0x7" := List.mem_of_getElem? (i := 4) rfl
    exact absurd (hdigits 0x78 hx) (by decide)
  · obtain ⟨hok, -, hwiped⟩ := hreads "0aF0x7b"
    refine (hwiped fun k hk => ?_).2
    obtain ⟨text, ⟨⟩, hlength, -⟩ := (hok k).1 hk
    have hodd : 7 = 2 * k := hlength
    omega

end KeyStore
end BootHandoff

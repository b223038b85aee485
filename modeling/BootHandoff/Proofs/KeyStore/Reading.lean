/-
# What reading the key store finds

Reading asks the product data for one value and nothing else.  The decoder is
called for a value that the buffer has room for, on an area of zeros, and what
it writes is kept if it decodes the value; for every other answer there is one
line in the log, and the buffer is zeroed.  This is so with any decoder
(`path_readWith`), and what the buffer held before makes no difference.

With a decoder that can be relied on, a value that is there and `Valid` ends up
decoded at the front of the buffer, with zeros behind it, and no other value is
decoded (`Decoder.Lawful.path_readWith`).
-/

import BootHandoff.KeyStore.Read
import BootHandoff.Proofs.KeyStore.Decoding
import BootHandoff.Proofs.Platform.Trace

namespace BootHandoff
namespace KeyStore

open Platform

variable {decoder : Decoder} {n : Nat} {steps : List Step}

/-- Why an answer of the product data is no key store of at most `n` bytes. -/
def failure (n : Nat) : Option Bytes → Error
  | none => .missing
  | some text => if text.length ≤ 2 * n then .undecodable else .tooLong text.length n

/-- Bytes that are decoded to the front of a zeroed buffer. -/
theorem overwrite_zero_of_front {k : Nat} {bytes : Bytes} {held : Buffer k}
    (h : held.bytes = bytes) : (Buffer.zero n).overwrite held.bytes = Buffer.ofFront n bytes := by
  rw [h]
  rfl

/-- The end of a reading that has failed. -/
theorem path_log_fail {level : Level} {line : String} {e : Error} {s t : Buffer n}
    {rest : List Step} {result : Except (Stop Error) Nat}
    (h : Action.Path (do
      Firmware.log level line
      (fail e : Action (Buffer n) Error Nat)) s rest result t) :
    rest = [logged level line] ∧ result = .error (.error e) ∧ t = s := by
  obtain ⟨⟨⟩, last, rfl, hfail⟩ := (Action.path_query_bind_iff (q := .log level line)).1 h
  obtain ⟨rfl, rfl, rfl⟩ := Action.path_fail_iff.1 hfail
  exact ⟨rfl, rfl, rfl⟩

/-- The decoder is called for a value, on an area of zeros, and answers like this. -/
def Decoder.Answers (decoder : Decoder) (n : Nat) (text : Bytes)
    (answer : Except DigitError Unit × Buffer (text.length / 2)) : Prop :=
  ∃ hroom : text.length / 2 ≤ n,
    text.length ≤ 2 * n ∧ decoder text ((Buffer.zero n).front (text.length / 2) hroom) = answer

/-- **What reading the key store does,** with any decoder and however the product data is
looked up: the decoder is called for a value that there is room for, and if it decodes that,
the buffer has what it wrote. -/
theorem path_readWith {find : String → Firmware (Option Bytes)} {buf t : Buffer n}
    {result : Except (Stop Error) Nat}
    (h : (readWith decoder find : Action (Buffer n) Error Nat).Path buf steps result t) :
    ∃ asked value? rest, steps = asked ++ rest ∧ (find key).Path asked value? ∧
      ((∃ text held, value? = some text ∧ rest = [] ∧ decoder.Answers n text (.ok (), held) ∧
          result = .ok (text.length / 2) ∧ t = (Buffer.zero n).overwrite held.bytes) ∨
        ∃ level line, rest = [logged level line] ∧
          (∀ text held, value? = some text → ¬decoder.Answers n text (.ok (), held)) ∧
          result = .error (.error (failure n value?)) ∧ t = Buffer.zero n) := by
  replace h := Action.path_set_bind_iff.1 h
  obtain ⟨asked, rest, value?, rfl, hasked, hvalue⟩ := Action.path_lift_bind_iff.1 h
  refine ⟨asked, value?, rest, rfl, hasked, ?_⟩
  cases value? with
  | none =>
    obtain ⟨rfl, rfl, rfl⟩ := path_log_fail hvalue
    exact .inr ⟨_, _, rfl, nofun, rfl, rfl⟩
  | some text =>
    dsimp only at hvalue
    split at hvalue
    · rename_i hroom
      replace hvalue := Action.path_get_bind_iff.1 hvalue
      cases hdecode : decoder text ((Buffer.zero n).front (text.length / 2) (by omega)) with
      | mk answer held =>
        rw [hdecode] at hvalue
        replace hvalue := Action.path_modify_bind_iff.1 hvalue
        cases answer with
        | ok done =>
          obtain ⟨rfl, rfl, rfl⟩ := Action.path_pure_iff.1 hvalue
          exact .inl ⟨text, held, rfl, rfl, ⟨by omega, hroom, hdecode⟩, rfl, rfl⟩
        | error e =>
          obtain ⟨⟨⟩, last, rfl, hwipe⟩ := (Action.path_query_bind_iff (q := .log _ _)).1 hvalue
          replace hwipe := Action.path_set_bind_iff.1 hwipe
          obtain ⟨rfl, rfl, rfl⟩ := Action.path_fail_iff.1 hwipe
          refine .inr ⟨_, _, rfl, ?_, by rw [failure, if_pos hroom], rfl⟩
          rintro _ held' ⟨⟩ ⟨_, -, hanswer⟩
          cases hdecode.symm.trans hanswer
    · rename_i hlong
      obtain ⟨rfl, rfl, rfl⟩ := path_log_fail hvalue
      refine .inr ⟨_, _, rfl, ?_, by rw [failure, if_neg hlong], rfl⟩
      rintro _ held ⟨⟩ ⟨_, hroom, -⟩
      exact hlong hroom

/-- **What reading the key store finds,** with a decoder that can be relied on. -/
theorem Decoder.Lawful.path_readWith (hlawful : decoder.Lawful)
    {find : String → Firmware (Option Bytes)} {buf t : Buffer n}
    {result : Except (Stop Error) Nat}
    (h : (readWith decoder find : Action (Buffer n) Error Nat).Path buf steps result t) :
    ∃ asked value? rest, steps = asked ++ rest ∧ (find key).Path asked value? ∧
      ((∃ text bytes, value? = some text ∧ rest = [] ∧ Valid n text ∧ Spells text bytes ∧
          result = .ok bytes.length ∧ t = Buffer.ofFront n bytes) ∨
        ∃ level line, rest = [logged level line] ∧
          (∀ text, value? = some text → ¬Valid n text) ∧
          result = .error (.error (failure n value?)) ∧ t = Buffer.zero n) := by
  obtain ⟨asked, value?, rest, hsteps, hasked, hends⟩ := KeyStore.path_readWith h
  refine ⟨asked, value?, rest, hsteps, hasked, ?_⟩
  rcases hends with ⟨text, held, hvalue, hrest, hanswer, hresult, ht⟩ |
    ⟨level, line, hrest, hnot, hresult, ht⟩
  · obtain ⟨hfront, hroom, hdecode⟩ := hanswer
    rcases hlawful.cases text ((Buffer.zero n).front (text.length / 2) hfront) with
      ⟨bytes, held', hspells, hdecode', hheld⟩ | ⟨e, held', -, hdecode'⟩
    · obtain ⟨-, rfl⟩ := Prod.mk.inj (hdecode.symm.trans hdecode')
      have hlength : text.length / 2 = bytes.length := by
        have := hspells.length_eq
        omega
      exact .inl ⟨text, bytes, hvalue, hrest, valid_iff.2 ⟨hroom, bytes, hspells⟩, hspells,
        hlength ▸ hresult, ht.trans (overwrite_zero_of_front hheld)⟩
    · cases hdecode.symm.trans hdecode'
  · refine .inr ⟨level, line, hrest, fun text htext hvalid => ?_, hresult, ht⟩
    obtain ⟨hroom, bytes, hspells⟩ := valid_iff.1 hvalid
    obtain ⟨held, hdecode, -⟩ :=
      hlawful.decodes ((Buffer.zero n).front (text.length / 2) (by omega)) hspells
    exact hnot text held htext ⟨by omega, hroom, hdecode⟩

/-- Reading the key store out of the product data of the platform asks for one value, and logs
a line if that comes to nothing; it does not halt. -/
theorem path_read {buf t : Buffer n} {result : Except (Stop Error) Nat}
    (h : (read decoder : Action (Buffer n) Error Nat).Path buf steps result t) :
    ∃ value?, (steps = [⟨.productData key, value?⟩] ∧ ∃ size, result = .ok size) ∨
      ∃ level line e, steps = [⟨.productData key, value?⟩, logged level line] ∧
        result = .error (.error e) := by
  obtain ⟨asked, value?, rest, rfl, hasked, hends⟩ := path_readWith h
  obtain rfl := Firmware.path_query_iff.1 hasked
  refine ⟨value?, ?_⟩
  rcases hends with ⟨text, held, -, rfl, -, rfl, -⟩ | ⟨level, line, rfl, -, rfl, -⟩
  · exact .inl ⟨rfl, _, rfl⟩
  · exact .inr ⟨level, line, _, rfl, rfl⟩

/-- What reading the key store finds in the product data of the platform, with a decoder that
can be relied on. -/
theorem Decoder.Lawful.path_read (hlawful : decoder.Lawful) {buf t : Buffer n}
    {result : Except (Stop Error) Nat}
    (h : (read decoder : Action (Buffer n) Error Nat).Path buf steps result t) :
    (∃ text bytes, steps = [⟨.productData key, some text⟩] ∧ Valid n text ∧ Spells text bytes ∧
      result = .ok bytes.length ∧ t = Buffer.ofFront n bytes) ∨
    ∃ value? level line e, steps = [⟨.productData key, value?⟩, logged level line] ∧
      (∀ text, value? = some text → ¬Valid n text) ∧ result = .error (.error e) ∧
      t = Buffer.zero n := by
  obtain ⟨asked, value?, rest, rfl, hasked, hfound⟩ := hlawful.path_readWith h
  obtain rfl := Firmware.path_query_iff.1 hasked
  rcases hfound with ⟨text, bytes, rfl, rfl, hvalid, hspells, rfl, rfl⟩ |
    ⟨level, line, rfl, hvalid, rfl, rfl⟩
  · exact .inl ⟨text, bytes, rfl, hvalid, hspells, rfl, rfl⟩
  · exact .inr ⟨value?, level, line, _, rfl, hvalid, rfl, rfl⟩

end KeyStore
end BootHandoff

/-
# The key store from the flash to the buffer

Four layers lie between the flash and the key store: an area of the flash, perhaps
a header in it, the items of the product data, and the digits of one value.  Each
is undone by code of its own, and a mistake of a few bytes in any of them loses the
key store without an error.

`read_of_placed` goes through all four at once.  Whatever entries are written, in
whatever form, wherever in the area they may be and whatever is behind them, the
bytes that the first value for the key store spells arrive in the buffer.
-/

import BootHandoff.Proofs.Bench.Showing
import BootHandoff.Proofs.KeyStore.Reading
import BootHandoff.Proofs.Platform.Extensionality
import BootHandoff.Proofs.ProductData.Encoding

namespace BootHandoff
namespace KeyStore

open Bench Flash Platform ProductData

variable {decoder : Decoder} {es : List Encoding} {terminator : UInt8}
  {value bytes tail blob flash : Bytes} {n : Nat}

/-- **A value that spells bytes is read** without a word to the platform. -/
theorem Decoder.Lawful.on_readWith_of_spells (hlawful : decoder.Lawful)
    {find : String → Firmware (Option Bytes)} (hfind : find key = pure (some value))
    (hspells : Spells value bytes) (hroom : bytes.length ≤ n) (buf : Buffer n) :
    (readWith decoder find : Action (Buffer n) Error Nat).on buf =
      pure (.ok bytes.length, Buffer.ofFront n bytes) := by
  have hlength := hspells.length_eq
  have hvalid : Valid n value := valid_iff.2 ⟨by omega, bytes, hspells⟩
  refine Firmware.ext_of_path fun steps ended hpath => Firmware.path_pure_iff.2 ?_
  obtain ⟨asked, value?, rest, rfl, hasked, hfound⟩ := hlawful.path_readWith hpath
  rw [hfind] at hasked
  obtain ⟨rfl, rfl⟩ := Firmware.path_pure_iff.1 hasked
  rcases hfound with ⟨_, bytes', ⟨⟩, rfl, -, hspells', hresult, hheld⟩ | ⟨_, _, -, hnot, -⟩
  · obtain rfl := hspells.unique hspells'
    exact ⟨rfl, Prod.ext hresult hheld⟩
  · exact absurd hvalid (hnot value rfl)

/-- Product data with a text item in it, and nothing but text items, starts as one. -/
theorem head?_of_text (htext : ∀ e ∈ es, e.kind = .text) (hsome : es ≠ []) :
    (es.flatMap Encoding.bytes ++ tail).head? = some ItemKind.text.byte := by
  cases es with
  | nil => exact absurd rfl hsome
  | cons e es =>
    rw [← htext e List.mem_cons_self]
    rfl

/-- A lookup in product data of text items finds the first one with the key,
whatever is behind the byte that ends them. -/
theorem find?_of_text (htext : ∀ e ∈ es, e.kind = .text)
    (hterminator : terminator = 0x00 ∨ terminator = 0xff)
    (hblob : es.flatMap Encoding.bytes ++ [terminator] <+: blob) (key : String) :
    find? blob key = (es.find? (·.key = Bytes.ofText key)).map Encoding.value := by
  obtain ⟨tail, rfl⟩ := hblob
  have hends : ∀ b ∈ (terminator :: tail).head?, b ≠ 0x01 ∧ b ≠ 0xfe := by
    rintro _ ⟨⟩
    rcases hterminator with rfl | rfl <;> decide
  rw [List.append_assoc, List.singleton_append, find?_eq_of_encodings es hends,
    List.filter_eq_self.2 fun e he => decide_eq_true (htext e he)]

/-- **The key store goes from the flash to the buffer.**  If the flash is shown as
it is, and an area of it keeps text items of which the first for the key store
spells bytes that have room in the buffer, then the product data is found, and
reading the key store from it fills the buffer with these bytes and zeros,
whatever decoder that can be relied on does the last step. -/
theorem read_of_placed (hlawful : decoder.Lawful) {σ ε : Type} (m : Machine σ) (u : σ)
    {area : Region}
    (hshows : ∀ step ∈ ((fromFlash : Task ε (Option Bytes)).run.run m u).steps,
      Shows flash area step)
    (hosts : Hosts flash area) (htext : ∀ e ∈ es, e.kind = .text)
    (hterminator : terminator = 0x00 ∨ terminator = 0xff)
    (hplaced : Placed flash area (es.flatMap Encoding.bytes ++ [terminator]))
    (hvalue : (es.find? (·.key = Bytes.ofText key)).map Encoding.value = some value)
    (hspells : Spells value bytes) (hroom : bytes.length ≤ n) :
    ∃ blob, ((fromFlash : Task ε (Option Bytes)).run.run m u).value = .ok (some blob) ∧
      ∀ buf : Buffer n, ∃ held : Buffer n,
        (readWith decoder fun key => pure (find? blob key) : Action (Buffer n) Error Nat).on buf =
          pure (.ok bytes.length, held) ∧
        held.bytes = bytes ++ List.replicate (n - bytes.length) 0 := by
  have hsome : es ≠ [] := by
    rintro rfl
    cases hvalue
  obtain ⟨blob, hblob, hdata⟩ := hplaced.path_fromFlash hosts (head?_of_text htext hsome) hshows
    (Firmware.path_run m (fromFlash : Task ε (Option Bytes)).run u)
  have hfind : find? blob key = some value := by
    rw [find?_of_text htext hterminator hdata, hvalue]
  exact ⟨blob, hblob, fun buf => ⟨_,
    hlawful.on_readWith_of_spells (congrArg pure hfind) hspells hroom buf,
    Buffer.bytes_ofFront_of_le hroom⟩⟩

/-- The hypotheses are satisfiable in both places: three entries, two of them for
the key store, behind a header, or at once with the start of another item behind
the byte that ends them. -/
theorem read_of_placed_on_bench :
    let es : List Encoding := [⟨.text, Bytes.ofText "sn", [0x31], 0, 3, by decide, by decide⟩,
      ⟨.text, Bytes.ofText key, Bytes.ofText "0aF0", 0, 0, by decide, by decide⟩,
      ⟨.text, Bytes.ofText key, [], 2, 0, by decide, by decide⟩]
    let Reads (bs : Bytes) : Prop :=
      ∃ blob, ((fromFlash : Task Unit (Option Bytes)).run.run Rig.machine
          (.withProductData bs)).value = .ok (some blob) ∧
        ∀ buf : Buffer 3, ∃ held : Buffer 3,
          (readWith decodeOver fun key => pure (find? blob key) :
            Action (Buffer 3) Error Nat).on buf = pure (.ok 2, held) ∧
          held.bytes = [0x0a, 0xf0, 0x00]
    Reads (SizeHeader.layout.write ⟨magic, 28⟩ ++ (es.flatMap Encoding.bytes ++ [0x00])) ∧
      Reads (es.flatMap Encoding.bytes ++ [0xff] ++ [0x01, 0x03]) := by
  intro es Reads
  have hreads : ∀ bs terminator, (terminator = 0x00 ∨ terminator = 0xff) →
      Placed (Rig.withProductData bs).flash.contents ⟨0x1000, 0x1000⟩
        (es.flatMap Encoding.bytes ++ [terminator]) → Reads bs := by
    intro bs terminator hterminator hplaced
    have hosts : Hosts (Rig.withProductData bs).flash.contents ⟨0x1000, 0x1000⟩ := by
      refine ⟨by decide, by decide, ?_⟩
      rw [Rig.length_contents_withProductData]
      decide
    exact read_of_placed lawful_decodeOver Rig.machine (.withProductData bs)
      (fun step hstep => Rig.shows_of_mem_steps rfl rfl rfl hstep) hosts (by decide) hterminator
      hplaced rfl
      (show Spells (Bytes.ofText "0aF0") [0x0a, 0xf0] from decode_eq_ok_iff.1 rfl) (by decide)
  constructor
  · exact hreads _ _ (.inl rfl) (.behindHeader 28 (by decide) (by decide)
      (Rig.prefix_contents_withProductData (by decide)))
  · exact hreads _ _ (.inr rfl) (.direct (by decide)
      ((List.prefix_append _ _).trans (Rig.prefix_contents_withProductData (by decide))))

end KeyStore
end BootHandoff

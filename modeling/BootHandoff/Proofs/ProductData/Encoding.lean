/-
# Product data reads back as it was written

An item is written as its kind, its key and its value, with a length in front of
key and value: the shortest form that the length has in base 128, most
significant digit first, behind any number of zero digits `80` that leaves it at
four bytes.  A length has such a form exactly if it is below `2 ^ 28`
(`length_canonicalLength_le_iff`).

However the items of a list are written, and whatever follows them that is not the
start of another item, lookups see the text items of the list and nothing else
(`entries_of_encodings`).
-/

import BootHandoff.Proofs.ProductData.Walk
import Mathlib.Data.Nat.Digits.Lemmas

namespace BootHandoff
namespace ProductData

variable {n padding : Nat} {tail : Bytes}

/-- The digits of a number that have others behind them, the most significant
first. -/
def leadDigits (n : Nat) : Bytes := (Nat.digits 128 n).reverse.map fun d => UInt8.ofNat (128 + d)

/-- The shortest form of a length. -/
def canonicalLength (n : Nat) : Bytes := leadDigits (n / 128) ++ [UInt8.ofNat (n % 128)]

/-- A form of a length that starts with digits which are zero. -/
def paddedLength (padding n : Nat) : Bytes := List.replicate padding 0x80 ++ canonicalLength n

/-- An item and how its two lengths are written. -/
structure Encoding where
  kind : ItemKind
  key : Bytes
  value : Bytes
  keyPadding : Nat
  valuePadding : Nat
  key_fits : (paddedLength keyPadding key.length).length ≤ 4
  value_fits : (paddedLength valuePadding value.length).length ≤ 4

/-- The bytes of an item that is written in this way. -/
def Encoding.bytes (e : Encoding) : Bytes :=
  [e.kind.byte] ++ paddedLength e.keyPadding e.key.length ++ e.key ++
    paddedLength e.valuePadding e.value.length ++ e.value

theorem length_paddedLength (padding n : Nat) :
    (paddedLength padding n).length = padding + (Nat.digits 128 (n / 128)).length + 1 := by
  simp [paddedLength, canonicalLength, leadDigits]
  omega

/-- **A length can be written exactly if it is below `2 ^ 28`.** -/
theorem length_canonicalLength_le_iff : (canonicalLength n).length ≤ 4 ↔ n < 2 ^ 28 := by
  have h : (Nat.digits 128 (n / 128)).length ≤ 3 ↔ n / 128 < 128 ^ 3 :=
    Nat.digits_length_le_iff (by omega) _
  have hlen := length_paddedLength 0 n
  simp only [paddedLength, List.replicate_zero, List.nil_append] at hlen
  omega

theorem digitsValue_lead_ofDigits {ds : List Nat} (h : ∀ d ∈ ds, d < 128) :
    digitsValue (ds.reverse.map fun d => UInt8.ofNat (128 + d)) = Nat.ofDigits 128 ds := by
  induction ds with
  | nil => rfl
  | cons d ds ih =>
    have hd := h d (by simp)
    rw [List.reverse_cons, List.map_append, List.map_singleton, digitsValue_concat,
      ih fun d hd => h d (by simp [hd]), UInt8.toNat_ofNat', Nat.ofDigits_cons]
    push_cast
    omega

theorem digitsValue_leadDigits (n : Nat) : digitsValue (leadDigits n) = n := by
  rw [leadDigits, digitsValue_lead_ofDigits fun d hd => Nat.digits_lt_base (by omega) hd,
    Nat.ofDigits_digits]

/-- Digits in front that are zero do not change a number. -/
theorem digitsValue_replicate_append (padding : Nat) (digits : Bytes) :
    digitsValue (List.replicate padding 0x80 ++ digits) = digitsValue digits := by
  induction padding with
  | zero => rfl
  | succ padding ih => exact ih

/-- What is written for a length is that length, if it has no more than four
bytes. -/
theorem isLength_paddedLength (h : (paddedLength padding n).length ≤ 4) :
    IsLength n (paddedLength padding n) := by
  rw [length_paddedLength] at h
  refine ⟨List.replicate padding 0x80 ++ leadDigits (n / 128), UInt8.ofNat (n % 128), ?_, ?_, ?_,
    ?_, ?_⟩
  · rw [paddedLength, canonicalLength, List.append_assoc]
  · simp [leadDigits]
    omega
  · intro b hb
    rcases List.mem_append.1 hb with hb | hb
    · rw [List.eq_of_mem_replicate hb]
      exact UInt8.le_refl _
    · obtain ⟨d, hd, rfl⟩ := List.mem_map.1 hb
      have hlt : d < 128 := Nat.digits_lt_base (by omega) (List.mem_reverse.1 hd)
      rw [UInt8.le_iff_toNat_le, UInt8.toNat_ofNat']
      simp
      omega
  · rw [UInt8.lt_iff_toNat_lt, UInt8.toNat_ofNat']
    simp
    omega
  · rw [paddedLength, canonicalLength, ← List.append_assoc, digitsValue_concat,
      digitsValue_replicate_append, digitsValue_leadDigits, UInt8.toNat_ofNat']
    omega

namespace Encoding

/-- The written item. -/
def form (e : Encoding) : Form where
  kind := e.kind
  key := ⟨paddedLength e.keyPadding e.key.length, e.key, isLength_paddedLength e.key_fits⟩
  value := ⟨paddedLength e.valuePadding e.value.length, e.value, isLength_paddedLength e.value_fits⟩

theorem bytes_form (e : Encoding) : e.form.bytes = e.bytes := by
  simp [form, Form.bytes, Field.bytes, bytes]

theorem flatMap_form (es : List Encoding) :
    (es.map form).flatMap Form.bytes = es.flatMap bytes := by
  rw [List.flatMap_map]
  exact congrArg (es.flatMap ·) (funext bytes_form)

end Encoding

/-- The items of a list exhaust what was written for it, if no other follows. -/
theorem exhausts_of_encodings (es : List Encoding)
    (htail : ∀ b ∈ tail.head?, b ≠ 0x01 ∧ b ≠ 0xfe) :
    Exhausts (es.map Encoding.form) (es.flatMap Encoding.bytes ++ tail) := by
  refine ⟨tail, by rw [Encoding.flatMap_form], ?_⟩
  rintro ⟨kind, key, value⟩ ⟨rest, rfl⟩
  obtain ⟨htext, hnote⟩ := htail kind.byte rfl
  cases kind with
  | text => exact htext rfl
  | note => exact hnote rfl

theorem entries_eq_of_encodings (es : List Encoding)
    (htail : ∀ b ∈ tail.head?, b ≠ 0x01 ∧ b ≠ 0xfe) :
    entries (es.flatMap Encoding.bytes ++ tail) =
      (es.filter (·.kind = .text)).map fun e => (e.key, e.value) := by
  rw [entries_eq (exhausts_of_encodings es htail), List.filter_map, List.map_map]
  rfl

theorem find?_eq_of_encodings (es : List Encoding)
    (htail : ∀ b ∈ tail.head?, b ≠ 0x01 ∧ b ≠ 0xfe) (key : String) :
    find? (es.flatMap Encoding.bytes ++ tail) key =
      ((es.filter (·.kind = .text)).find? (·.key = Bytes.ofText key)).map Encoding.value := by
  have hkey : ((fun entry : Bytes × Bytes => entry.1 == Bytes.ofText key) ∘
      fun e : Encoding => (e.key, e.value)) = fun e => decide (e.key = Bytes.ofText key) :=
    funext fun _ => beq_eq_decide _ _
  rw [find?, entries_eq_of_encodings es htail, List.find?_map, Option.map_map, hkey]
  rfl

/-- **Product data reads back as it was written.**  The entries are the keys and
values of the text items in their order, and a lookup finds the value of the first
of them that has the key, whatever follows the items that is not the start of
another. -/
theorem entries_of_encodings (es : List Encoding) (tail : Bytes)
    (htail : ∀ b ∈ tail.head?, b ≠ 0x01 ∧ b ≠ 0xfe) :
    (entries (es.flatMap Encoding.bytes ++ tail) =
      (es.filter (·.kind = .text)).map fun e => (e.key, e.value)) ∧
    ∀ key, find? (es.flatMap Encoding.bytes ++ tail) key =
      ((es.filter (·.kind = .text)).find? (·.key = Bytes.ofText key)).map Encoding.value :=
  ⟨entries_eq_of_encodings es htail, find?_eq_of_encodings es htail⟩

/-- A note, a text whose key has a length in three bytes, and an empty value
behind it, with the bytes of an erased flash after them. -/
theorem entries_of_encodings_sample :
    (∀ b ∈ ([0xff, 0x01, 0xfe] : Bytes).head?, b ≠ 0x01 ∧ b ≠ 0xfe) ∧
      entries [0xfe, 1, 0x67, 0, 0x01, 0x80, 0x80, 1, 0x6b, 1, 0x31, 0x01, 1, 0x6b, 0, 0xff, 0x01,
        0xfe] = [([0x6b], [0x31]), ([0x6b], [])] ∧
      find? [0xfe, 1, 0x67, 0, 0x01, 0x80, 0x80, 1, 0x6b, 1, 0x31, 0x01, 1, 0x6b, 0, 0xff, 0x01,
        0xfe] "k" = some [0x31] := by
  have htail : ∀ b ∈ ([0xff, 0x01, 0xfe] : Bytes).head?, b ≠ 0x01 ∧ b ≠ 0xfe := by
    rintro _ ⟨⟩
    decide
  obtain ⟨hentries, hfind⟩ := entries_of_encodings
    [⟨.note, [0x67], [], 0, 0, by decide, by decide⟩,
      ⟨.text, [0x6b], [0x31], 2, 0, by decide, by decide⟩,
      ⟨.text, [0x6b], [], 0, 0, by decide, by decide⟩] _ htail
  exact ⟨htail, hentries, hfind "k"⟩

end ProductData
end BootHandoff

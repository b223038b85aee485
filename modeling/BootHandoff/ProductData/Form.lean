/-
# The written form of vital product data

A blob of vital product data is a run of items, each a kind, a key and a
value:

| part | bytes |
| --- | --- |
| kind | one byte: `01` a text item, `fe` a note about the data itself |
| key | its length, then its bytes |
| value | its length, then its bytes |

A length is written in base 128, most significant digit first, in one to four
bytes of which all but the last have their top bit set.  It may start with
digits that are zero, so one item has several forms; but no form is the
beginning of another (`Form.eq_of_front`), so at most one stands at any
place.
-/

import BootHandoff.Bytes.Slice

namespace BootHandoff
namespace ProductData

/-- The kinds of item. -/
inductive ItemKind where
  | text
  | note
  deriving DecidableEq, Repr

/-- The byte that stands for a kind. -/
def ItemKind.byte : ItemKind → UInt8
  | .text => 0x01
  | .note => 0xfe

/-- The kind that a byte stands for, if it is one. -/
def ItemKind.ofByte? (b : UInt8) : Option ItemKind :=
  if b = 0x01 then some .text else if b = 0xfe then some .note else none

theorem ItemKind.ofByte?_eq_some_iff {b : UInt8} {kind : ItemKind} :
    ofByte? b = some kind ↔ b = kind.byte := by
  unfold ofByte?
  cases kind <;> split <;> simp_all [byte]

/-- The number that a string of base-128 digits stands for; the top bit of a
digit does not count. -/
def digitsValue (digits : Bytes) : Nat :=
  digits.foldl (fun n digit => n * 128 + digit.toNat % 128) 0

theorem digitsValue_concat (digits : Bytes) (digit : UInt8) :
    digitsValue (digits ++ [digit]) = digitsValue digits * 128 + digit.toNat % 128 := by
  simp [digitsValue]

/-- Three digits make a number of 21 bits. -/
theorem digitsValue_lt {digits : Bytes} (h : digits.length ≤ 3) :
    digitsValue digits < 0x200000 := by
  match digits with
  | [] => decide
  | [a] | [a, b] | [a, b, c] =>
    simp only [digitsValue, List.foldl_cons, List.foldl_nil]
    omega
  | _ :: _ :: _ :: _ :: _ =>
    simp only [List.length_cons] at h
    omega

/-- The digits are a length: one to four of them, all but the last with their top
bit set. -/
def IsLength (n : Nat) (digits : Bytes) : Prop :=
  ∃ lead last, digits = lead ++ [last] ∧ lead.length < 4 ∧ (∀ b ∈ lead, 0x80 ≤ b) ∧ last < 0x80 ∧
    n = digitsValue digits

variable {n n' : Nat} {digits digits' before bs : Bytes}

/-- A length does not end among digits that have others behind them. -/
theorem IsLength.not_opens (h : IsLength n digits) (hbefore : ∀ b ∈ before, 0x80 ≤ b) :
    ¬digits <+: before := by
  obtain ⟨lead, last, rfl, -, -, hlast, -⟩ := h
  rintro ⟨rest, rfl⟩
  have := hbefore last (by simp)
  rw [UInt8.le_iff_toNat_le] at this
  rw [UInt8.lt_iff_toNat_lt] at hlast
  omega

theorem IsLength.eq_value (h : IsLength n digits) : n = digitsValue digits := by
  obtain ⟨-, -, -, -, -, -, h⟩ := h
  exact h

theorem IsLength.length_le (h : IsLength n digits) : digits.length ≤ 4 := by
  obtain ⟨lead, last, rfl, hlead, -⟩ := h
  simp
  omega

/-- At most one length stands at the front of a string. -/
theorem IsLength.eq_of_front (h : IsLength n digits) (h' : IsLength n' digits')
    (hbs : digits <+: bs) (hbs' : digits' <+: bs) : digits = digits' := by
  -- The shorter of the two begins the longer one, and can only be all of it.
  have haux : ∀ {n n' : Nat} {digits digits' : Bytes}, IsLength n digits → IsLength n' digits' →
      digits <+: digits' → digits = digits' := by
    rintro n n' digits _ h ⟨lead, last, rfl, -, hlead, -⟩ hprefix
    rcases List.prefix_concat_iff.1 hprefix with heq | hshort
    · exact heq
    · exact absurd hshort (h.not_opens hlead)
  rcases Nat.le_total digits.length digits'.length with hle | hle
  · exact haux h h' (List.prefix_of_prefix_length_le hbs hbs' hle)
  · exact (haux h' h (List.prefix_of_prefix_length_le hbs' hbs hle)).symm

/-- A key or a value as it is written. -/
structure Field where
  digits : Bytes
  content : Bytes
  isLength : IsLength content.length digits

/-- The bytes of a field. -/
def Field.bytes (f : Field) : Bytes := f.digits ++ f.content

/-- Where the content lies of a field that is written at a place. -/
def Field.sliceAt (f : Field) (place : Nat) : Slice := ⟨place + f.digits.length, f.content⟩

theorem Field.eq_of_front {f g : Field} (hf : f.bytes <+: bs) (hg : g.bytes <+: bs) : f = g := by
  obtain ⟨digits, content, hlength⟩ := f
  obtain ⟨digits', content', hlength'⟩ := g
  obtain rfl : digits = digits' := hlength.eq_of_front hlength'
    ((List.prefix_append _ _).trans hf) ((List.prefix_append _ _).trans hg)
  have hlen : content.length = content'.length := hlength.eq_value.trans hlength'.eq_value.symm
  have hcontent : digits ++ content = digits ++ content' := by
    refine (List.prefix_of_prefix_length_le hf hg ?_).eq_of_length ?_ <;> simp [bytes, hlen]
  obtain rfl := List.append_cancel_left hcontent
  rfl

/-- An item as it is written. -/
structure Form where
  kind : ItemKind
  key : Field
  value : Field

namespace Form

/-- The bytes of an item. -/
def bytes (form : Form) : Bytes := form.kind.byte :: (form.key.bytes ++ form.value.bytes)

theorem length_bytes (form : Form) :
    form.bytes.length = 1 + form.key.bytes.length + form.value.bytes.length := by
  simp [bytes]
  omega

/-- **At most one item stands at the front of a string.** -/
theorem eq_of_front {f g : Form} (hf : f.bytes <+: bs) (hg : g.bytes <+: bs) : f = g := by
  obtain ⟨kind, key, value⟩ := f
  obtain ⟨kind', key', value'⟩ := g
  cases bs with
  | nil => exact absurd (List.prefix_nil.1 hf) (List.cons_ne_nil _ _)
  | cons b rest =>
    obtain ⟨hkind, hfields⟩ := List.cons_prefix_cons.1 hf
    obtain ⟨hkind', hfields'⟩ := List.cons_prefix_cons.1 hg
    have hbyte := ItemKind.ofByte?_eq_some_iff.2 hkind.symm
    rw [ItemKind.ofByte?_eq_some_iff.2 hkind'.symm] at hbyte
    obtain rfl : kind' = kind := Option.some.inj hbyte
    obtain rfl : key = key' := Field.eq_of_front ((List.prefix_append _ _).trans hfields)
      ((List.prefix_append _ _).trans hfields')
    -- What is left of the string behind the key starts with both values.
    obtain ⟨tail, rfl⟩ := (List.prefix_append _ _).trans hfields
    obtain rfl : value = value' := Field.eq_of_front ((List.prefix_append_right_inj _).1 hfields)
      ((List.prefix_append_right_inj _).1 hfields')
    rfl

end Form

end ProductData
end BootHandoff

/-
# Reading the items of vital product data

The readers take one part of a blob after the other off the front of a slice of
it: a length, a field, an item.  Each answers with what it read and the slice
behind it, or with `none` where the part does not stand whole at the front.

Beside each reader stands what it does on every slice: it never halts, it finds
exactly the written forms of `ProductData.Form`, and what it found lies in the
slice where the form has it.
-/

import BootHandoff.ProductData.Form

namespace BootHandoff
namespace ProductData

/-- A key and its value, where they lie in a blob. -/
structure Entry where
  key : Slice
  value : Slice
  deriving DecidableEq, Repr

/-- One item of a blob. -/
structure Item where
  kind : ItemKind
  entry : Entry
  deriving DecidableEq, Repr

/-- A length with one more digit behind the digits that it has. -/
def pushDigit (len : UInt64) (digit : UInt8) : UInt64 :=
  (len <<< 7) ||| (digit &&& 0x7f).toUInt64

/-- Reads on in a length that `s` starts with: `taken` digits were read and
make `len`, and `rest` follows them. -/
def readLengthFrom (s : Slice) (taken : Nat) (len : UInt64) :
    Bytes → Except Halt (Option (UInt64 × Slice))
  | [] => .ok none
  | digit :: rest =>
    if 4 ≤ taken then .ok none
    else
      let len := pushDigit len digit
      if digit &&& 0x80 = 0 then do return some (len, ← s.behind (taken + 1))
      else readLengthFrom s (taken + 1) len rest

/-- Reads a length off the front of a slice. -/
def readLength (s : Slice) : Except Halt (Option (UInt64 × Slice)) := readLengthFrom s 0 0 s.bytes

/-- Reads a length and that many bytes. -/
def readField (s : Slice) : Except Halt (Option (Slice × Slice)) := do
  match ← readLength s with
  | none => return none
  | some (len, rest) =>
    if rest.Has len.toNat then return some (← rest.splitAt len.toNat) else return none

/-- Reads a key and its value. -/
def readEntry (s : Slice) : Except Halt (Option (Entry × Slice)) := do
  match ← readField s with
  | none => return none
  | some (key, rest) =>
    match ← readField rest with
    | none => return none
    | some (value, rest) => return some (⟨key, value⟩, rest)

/-- Reads one item. -/
def readItem (s : Slice) : Except Halt (Option (Item × Slice)) :=
  match s.uncons? with
  | none => .ok none
  | some (b, rest) =>
    match ItemKind.ofByte? b with
    | none => .ok none
    | some kind => do
      match ← readEntry rest with
      | none => return none
      | some (entry, rest) => return some (⟨kind, entry⟩, rest)

/-- The item of a form that is written at a place. -/
def Form.itemAt (form : Form) (place : Nat) : Item where
  kind := form.kind
  entry :=
    { key := form.key.sliceAt (place + 1)
      value := form.value.sliceAt (place + 1 + form.key.bytes.length) }

theorem and_0x80_eq_zero_iff (b : UInt8) : b &&& 0x80 = 0 ↔ b < 0x80 := by
  have h : ∀ i : Fin 256, UInt8.ofNat i &&& 0x80 = 0 ↔ UInt8.ofNat i < 0x80 := by decide +kernel
  simpa using h ⟨b.toNat, b.toNat_lt⟩

/-- A digit goes into a length as the number it is, as long as the word has room
for it. -/
theorem toNat_pushDigit {len : UInt64} (digit : UInt8) (h : len.toNat < 0x200000) :
    (pushDigit len digit).toNat = len.toNat * 128 + digit.toNat % 128 := by
  have hlow : (digit &&& 0x7f).toNat = digit.toNat % 128 := by
    rw [UInt8.toNat_and]
    exact Nat.and_two_pow_sub_one_eq_mod _ 7
  have hhigh : (len <<< 7).toNat = 2 ^ 7 * len.toNat := by
    rw [UInt64.toNat_shiftLeft]
    simp [Nat.shiftLeft_eq]
    omega
  rw [pushDigit, UInt64.toNat_or, UInt8.toNat_toUInt64, hlow, hhigh,
    ← Nat.two_pow_add_eq_or_of_lt (by omega)]
  omega

section Readers

variable {s : Slice}

/-- What reading on in a length does once all digits up to here have others
behind them. -/
theorem readLengthFrom_cases {taken : Nat} {len : UInt64} {before rest : Bytes}
    (hs : s.bytes = before ++ rest) (htaken : before.length = taken) (hmax : taken ≤ 4)
    (hbefore : ∀ b ∈ before, 0x80 ≤ b) (hlen : len.toNat = digitsValue before) :
    (∃ n digits, IsLength n.toNat digits ∧ digits <+: s.bytes ∧
      readLengthFrom s taken len rest = .ok (some (n, s.skip digits.length))) ∨
    (∀ n digits, IsLength n digits → ¬digits <+: s.bytes) ∧
      readLengthFrom s taken len rest = .ok none := by
  induction rest generalizing taken len before with
  | nil =>
    refine .inr ⟨fun n digits hlength hprefix => ?_, rfl⟩
    rw [hs, List.append_nil] at hprefix
    exact hlength.not_opens hbefore hprefix
  | cons digit rest ih =>
    rw [readLengthFrom]
    split
    · -- Four digits with others behind them are no length, whatever comes next.
      refine .inr ⟨fun n digits hlength hprefix => ?_, rfl⟩
      have hshort := hlength.length_le
      exact hlength.not_opens hbefore (List.prefix_of_prefix_length_le hprefix
        (hs ▸ List.prefix_append _ _) (by omega))
    · rename_i hroom
      have hlt := digitsValue_lt (show before.length ≤ 3 by omega)
      have hnext : (pushDigit len digit).toNat = digitsValue (before ++ [digit]) := by
        rw [toNat_pushDigit _ (hlen ▸ hlt), digitsValue_concat, hlen]
      have hs' : s.bytes = (before ++ [digit]) ++ rest := by simp [hs]
      split
      · rename_i hlast
        rw [and_0x80_eq_zero_iff] at hlast
        refine .inl ⟨pushDigit len digit, before ++ [digit],
          ⟨before, digit, rfl, by omega, hbefore, hlast, hnext⟩, hs' ▸ List.prefix_append _ _, ?_⟩
        rw [Slice.behind_of_le (by simp [hs, htaken]), List.length_append, htaken]
        rfl
      · rename_i hmore
        rw [and_0x80_eq_zero_iff, UInt8.not_lt] at hmore
        refine ih hs' (by simp [htaken]) (by omega) (fun b hb => ?_) hnext
        rcases List.mem_append.1 hb with hb | hb
        · exact hbefore b hb
        · rwa [List.mem_singleton.1 hb]

theorem readLength_cases (s : Slice) :
    (∃ n digits, IsLength n.toNat digits ∧ digits <+: s.bytes ∧
      readLength s = .ok (some (n, s.skip digits.length))) ∨
    (∀ n digits, IsLength n digits → ¬digits <+: s.bytes) ∧ readLength s = .ok none :=
  readLengthFrom_cases (List.nil_append s.bytes).symm rfl (by omega) (by simp) rfl

theorem readField_cases (s : Slice) :
    (∃ f : Field, f.bytes <+: s.bytes ∧
      readField s = .ok (some (f.sliceAt s.start, s.skip f.bytes.length))) ∨
    (∀ f : Field, ¬f.bytes <+: s.bytes) ∧ readField s = .ok none := by
  unfold readField
  rcases readLength_cases s with ⟨n, digits, hlength, ⟨tail, htail⟩, hread⟩ | ⟨hnone, hread⟩
  · rw [hread]
    have hrest : (s.skip digits.length).bytes = tail := by simp [← htail]
    by_cases hhas : (s.skip digits.length).Has n.toNat
    · rw [Slice.has_iff, hrest] at hhas
      have hcontent : (tail.take n.toNat).length = n.toNat := List.length_take_of_le hhas
      let f : Field := ⟨digits, tail.take n.toNat, by rwa [hcontent]⟩
      refine .inl ⟨f, ?_, ?_⟩
      · rw [← htail]
        exact (List.prefix_append_right_inj _).2 (List.take_prefix _ _)
      · have hsplit := Slice.splitAt_of_le (s := s.skip digits.length) (hrest ▸ hhas)
        rw [hrest, Slice.skip_skip] at hsplit
        have hf : f.bytes.length = digits.length + n.toNat := by simp [f, Field.bytes, hcontent]
        show (if _ then _ else _) = _
        rw [if_pos (Slice.has_iff.2 (hrest ▸ hhas)), hsplit, hf]
        rfl
    · refine .inr ⟨fun f hf => hhas ?_, if_neg hhas⟩
      obtain ⟨digits', content, hlength'⟩ := f
      obtain rfl : digits = digits' := hlength.eq_of_front hlength' (htail ▸ List.prefix_append _ _)
        ((List.prefix_append _ _).trans hf)
      rw [← htail] at hf
      have hcontent := ((List.prefix_append_right_inj _).1 hf).length_le
      rw [Slice.has_iff, hrest, hlength.eq_value, ← hlength'.eq_value]
      exact hcontent
  · rw [hread]
    exact .inr ⟨fun f hf => hnone _ _ f.isLength ((List.prefix_append _ _).trans hf), rfl⟩

theorem readEntry_cases (s : Slice) :
    (∃ key value : Field, key.bytes ++ value.bytes <+: s.bytes ∧
      readEntry s = .ok (some (⟨key.sliceAt s.start, value.sliceAt (s.start + key.bytes.length)⟩,
        s.skip (key.bytes ++ value.bytes).length))) ∨
    (∀ key value : Field, ¬key.bytes ++ value.bytes <+: s.bytes) ∧ readEntry s = .ok none := by
  unfold readEntry
  rcases readField_cases s with ⟨key, ⟨tail, htail⟩, hkey⟩ | ⟨hnone, hkey⟩
  · rw [hkey]
    have hrest : (s.skip key.bytes.length).bytes = tail := by simp [← htail]
    rcases readField_cases (s.skip key.bytes.length) with ⟨value, hprefix, hvalue⟩ | ⟨hnone, hvalue⟩
    · rw [hrest] at hprefix
      refine .inl ⟨key, value, htail ▸ (List.prefix_append_right_inj _).2 hprefix, ?_⟩
      rw [List.length_append, ← Slice.skip_skip]
      show (readField (s.skip key.bytes.length) >>= _) = _
      rw [hvalue]
      rfl
    · refine .inr ⟨fun key' value h => ?_, ?_⟩
      · obtain rfl : key = key' := Field.eq_of_front (htail ▸ List.prefix_append _ _)
          ((List.prefix_append _ _).trans h)
        rw [← htail] at h
        exact hnone value (hrest ▸ (List.prefix_append_right_inj _).1 h)
      · show (readField (s.skip key.bytes.length) >>= _) = _
        rw [hvalue]
        rfl
  · rw [hkey]
    exact .inr ⟨fun key _ h => hnone key ((List.prefix_append _ _).trans h), rfl⟩

/-- **What reading an item does:** the form at the front of a slice is found,
and where no form stands no item is found. -/
theorem readItem_cases (s : Slice) :
    (∃ form : Form, form.bytes <+: s.bytes ∧
      readItem s = .ok (some (form.itemAt s.start, s.skip form.bytes.length))) ∨
    (∀ form : Form, ¬form.bytes <+: s.bytes) ∧ readItem s = .ok none := by
  obtain ⟨start, _ | ⟨b, tail⟩⟩ := s
  · exact .inr ⟨fun form h => absurd (List.prefix_nil.1 h) (List.cons_ne_nil _ _), rfl⟩
  unfold readItem
  simp only [Slice.uncons?]
  cases hkind : ItemKind.ofByte? b with
  | none =>
    refine .inr ⟨fun form h => ?_, rfl⟩
    obtain ⟨hbyte, -⟩ := List.cons_prefix_cons.1 h
    rw [ItemKind.ofByte?_eq_some_iff.2 hbyte.symm] at hkind
    cases hkind
  | some kind =>
    obtain rfl := ItemKind.ofByte?_eq_some_iff.1 hkind
    rcases readEntry_cases ⟨start + 1, tail⟩ with ⟨key, value, hprefix, hentry⟩ | ⟨hnone, hentry⟩
    · refine .inl ⟨⟨kind, key, value⟩, List.cons_prefix_cons.2 ⟨rfl, hprefix⟩, ?_⟩
      simp only [hentry, Form.bytes, List.length_cons, Slice.skip_cons]
      rfl
    · refine .inr ⟨fun form h => ?_, ?_⟩
      · exact hnone _ _ (List.cons_prefix_cons.1 h).2
      · simp only [hentry]
        rfl

theorem readItem_of_front {form : Form} (h : form.bytes <+: s.bytes) :
    readItem s = .ok (some (form.itemAt s.start, s.skip form.bytes.length)) := by
  rcases readItem_cases s with ⟨found, hfound, hread⟩ | ⟨hnone, -⟩
  · rwa [Form.eq_of_front h hfound]
  · exact absurd h (hnone form)

theorem readItem_eq_none (h : ∀ form : Form, ¬form.bytes <+: s.bytes) :
    readItem s = .ok none := by
  rcases readItem_cases s with ⟨found, hfound, -⟩ | ⟨-, hread⟩
  · exact absurd hfound (h found)
  · exact hread

end Readers

end ProductData
end BootHandoff

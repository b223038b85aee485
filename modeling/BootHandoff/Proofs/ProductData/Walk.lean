/-
# A walk follows the longest run of items

Many sequences of written items stand at the front of a blob, each one the
beginning of every longer one, for no written item is the beginning of another
(`Form.eq_of_front`).  So there is one that is longest, and behind it no item
stands (`longest_iff`).

Going through the entries of a blob follows this sequence (`call_eq`): call by
call it yields the text items, each where its form has it in the blob, and after
the last of them it yields nothing however often it is asked.  The walk is given
no promise about the blob.
-/

import BootHandoff.ProductData.Entries
import Mathlib.Data.List.Induction

namespace BootHandoff

/-- The slice is a stretch of a byte string, at the place that it names. -/
def Slice.LiesIn (s : Slice) (bs : Bytes) : Prop :=
  s.start ≤ bs.length ∧ s.bytes <+: bs.drop s.start

namespace ProductData

variable {form : Form} {forms others : List Form} {bs blob : Bytes} {ahead : Slice} {entry : Entry}
  {place : Nat}

/-- The written items stand one behind another at the front of a byte string. -/
def Opens (forms : List Form) (bs : Bytes) : Prop := forms.flatMap Form.bytes <+: bs

/-- Of all such sequences, none has more items. -/
structure Longest (forms : List Form) (bs : Bytes) : Prop where
  opens : Opens forms bs
  length_le : ∀ others, Opens others bs → others.length ≤ forms.length

/-- The written items stand one behind another at the front of a byte string,
and no item stands behind them. -/
def Exhausts (forms : List Form) (bs : Bytes) : Prop :=
  ∃ tail, bs = forms.flatMap Form.bytes ++ tail ∧ ∀ form : Form, ¬form.bytes <+: tail

theorem Exhausts.opens (h : Exhausts forms bs) : Opens forms bs := by
  obtain ⟨tail, rfl, -⟩ := h
  exact List.prefix_append _ _

theorem exhausts_nil_iff : Exhausts [] bs ↔ ∀ form : Form, ¬form.bytes <+: bs := by
  simp [Exhausts]

theorem exhausts_cons_iff :
    Exhausts (form :: forms) bs ↔
      form.bytes <+: bs ∧ Exhausts forms (bs.drop form.bytes.length) := by
  constructor
  · rintro ⟨tail, rfl, htail⟩
    simp only [List.flatMap_cons, List.append_assoc, List.drop_left']
    exact ⟨List.prefix_append _ _, tail, rfl, htail⟩
  · rintro ⟨⟨rest, rfl⟩, tail, htail, hnone⟩
    rw [List.drop_left'] at htail
    · exact ⟨tail, by simp [htail], hnone⟩
    · rfl

/-- Every sequence of items at the front begins one behind which no item
stands. -/
theorem Exhausts.prefix_of_opens (h : Exhausts forms bs) (hothers : Opens others bs) :
    others <+: forms := by
  induction others generalizing forms bs with
  | nil => exact List.nil_prefix
  | cons other others ih =>
    rw [Opens, List.flatMap_cons] at hothers
    have hfront : other.bytes <+: bs := (List.prefix_append _ _).trans hothers
    cases forms with
    | nil => exact absurd hfront (exhausts_nil_iff.1 h other)
    | cons form forms =>
      obtain ⟨hform, hrest⟩ := exhausts_cons_iff.1 h
      obtain rfl : form = other := Form.eq_of_front hform hfront
      obtain ⟨tail, rfl⟩ := hform
      rw [List.drop_left' rfl] at hrest
      exact List.cons_prefix_cons.2
        ⟨rfl, ih hrest ((List.prefix_append_right_inj _).1 hothers)⟩

/-- Taking items off the front comes to an end, for each of them has bytes. -/
theorem exists_exhausts (bs : Bytes) : ∃ forms, Exhausts forms bs := by
  induction hlen : bs.length using Nat.strongRecOn generalizing bs with
  | ind n ih =>
    by_cases h : ∃ form : Form, form.bytes <+: bs
    · obtain ⟨form, hform⟩ := h
      have hle := hform.length_le
      have hpos := form.length_bytes
      obtain ⟨forms, hforms⟩ := ih (bs.length - form.bytes.length) (by omega)
        (bs.drop form.bytes.length) (by simp)
      exact ⟨form :: forms, exhausts_cons_iff.2 ⟨hform, hforms⟩⟩
    · exact ⟨[], exhausts_nil_iff.2 (not_exists.1 h)⟩

/-- **The longest sequence is the one behind which no item stands.** -/
theorem longest_iff : Longest forms bs ↔ Exhausts forms bs := by
  constructor
  · intro h
    obtain ⟨all, hall⟩ := exists_exhausts bs
    have heq := (hall.prefix_of_opens h.opens).eq_of_length_le (h.length_le all hall.opens)
    rwa [heq]
  · intro h
    exact ⟨h.opens, fun others hothers => (h.prefix_of_opens hothers).length_le⟩

theorem Longest.eq (h : Longest forms bs) (hothers : Longest others bs) : others = forms :=
  ((longest_iff.1 h).prefix_of_opens hothers.opens).eq_of_length_le
    (hothers.length_le forms h.opens)

/-- The entries of the text items among written items, the first of which is
written at a place. -/
def entriesAt : Nat → List Form → List Entry
  | _, [] => []
  | place, form :: forms =>
    match form.kind with
    | .text => (form.itemAt place).entry :: entriesAt (place + form.bytes.length) forms
    | .note => entriesAt (place + form.bytes.length) forms

/-- The answer to the call of number `k`, counted from zero, of a walk that is
asked for the next entry again and again. -/
def call : Nat → Slice → Except Halt (Option Entry)
  | 0, ahead => return (← next ahead).1
  | k + 1, ahead => do call k (← next ahead).2

theorem call_zero_of_next {found : Option Entry} {rest : Slice}
    (h : next ahead = .ok (found, rest)) : call 0 ahead = .ok found := by
  rw [call, h]
  rfl

theorem call_succ_of_next {found : Option Entry} {rest : Slice}
    (h : next ahead = .ok (found, rest)) (k : Nat) : call (k + 1) ahead = call k rest := by
  rw [call, h]
  rfl

/-- **Call by call, a walk yields the entries that lie ahead,** and nothing once
they are through. -/
theorem call_eq (k : Nat) (ahead : Slice) : call k ahead = .ok (entriesFrom ahead)[k]? := by
  induction k generalizing ahead with
  | zero =>
    rcases next_cases ahead with ⟨entry, rest, hnext, -⟩ | hnext
    · rw [call_zero_of_next hnext, entriesFrom_of_some hnext]
      rfl
    · rw [call_zero_of_next hnext, entriesFrom_of_none hnext]
      rfl
  | succ k ih =>
    rcases next_cases ahead with ⟨entry, rest, hnext, -⟩ | hnext
    · rw [call_succ_of_next hnext, entriesFrom_of_some hnext, ih]
      rfl
    · have hempty : next .empty = .ok (none, .empty) := by
        rcases next_cases .empty with ⟨entry, rest, -, hlt⟩ | h
        · cases hlt
        · exact h
      rw [call_succ_of_next hnext, ih, entriesFrom_of_none hnext, entriesFrom_of_none hempty]
      rfl

/-- **The entries that lie ahead are those of the text items there.** -/
theorem entriesFrom_eq (h : Exhausts forms ahead.bytes) :
    entriesFrom ahead = entriesAt ahead.start forms := by
  induction forms generalizing ahead with
  | nil => exact entriesFrom_of_none (next_of_none (readItem_eq_none (exhausts_nil_iff.1 h)))
  | cons form forms ih =>
    obtain ⟨hform, hrest⟩ := exhausts_cons_iff.1 h
    have hread := readItem_of_front hform
    have hahead := ih (show Exhausts forms (ahead.skip form.bytes.length).bytes from hrest)
    obtain ⟨kind, key, value⟩ := form
    cases kind with
    | text =>
      rw [entriesFrom_of_some (next_of_text hread), hahead]
      rfl
    | note =>
      rw [entriesFrom_congr (next_of_note hread), hahead]
      rfl

theorem entries_eq (h : Exhausts forms blob) :
    entries blob = (forms.filter (·.kind = .text)).map fun form =>
      (form.key.content, form.value.content) := by
  rw [entries, entriesFrom_eq h]
  generalize (Slice.whole blob).start = place
  clear h
  induction forms generalizing place with
  | nil => rfl
  | cons form forms ih =>
    obtain ⟨kind, key, value⟩ := form
    cases kind with
    | text => exact congrArg (_ :: ·) (ih _)
    | note => exact ih _

theorem Field.liesIn {field : Field} {before : Bytes} (h : before ++ field.bytes <+: blob) :
    (field.sliceAt before.length).LiesIn blob := by
  obtain ⟨rest, rfl⟩ := h
  refine ⟨by simp [sliceAt, bytes], rest, ?_⟩
  rw [sliceAt, bytes, ← List.drop_drop]
  simp

theorem Form.liesIn {before : Bytes} (h : before ++ form.bytes <+: blob) :
    (form.itemAt before.length).entry.key.LiesIn blob ∧
      (form.itemAt before.length).entry.value.LiesIn blob := by
  have hkey : (before ++ [form.kind.byte]) ++ form.key.bytes <+: blob :=
    List.IsPrefix.trans ⟨form.value.bytes, by simp [Form.bytes]⟩ h
  have hvalue : (before ++ form.kind.byte :: form.key.bytes) ++ form.value.bytes <+: blob := by
    simpa [Form.bytes] using h
  have hkey' := Field.liesIn hkey
  have hvalue' := Field.liesIn hvalue
  rw [List.length_append, List.length_singleton] at hkey'
  rw [List.length_append, List.length_cons, Nat.add_comm _ 1, ← Nat.add_assoc] at hvalue'
  exact ⟨hkey', hvalue'⟩

/-- Every entry lies in the blob, where its form has it. -/
theorem liesIn_of_mem_entriesAt {before : Bytes} (h : before ++ forms.flatMap Form.bytes <+: blob)
    (hentry : entry ∈ entriesAt before.length forms) :
    entry.key.LiesIn blob ∧ entry.value.LiesIn blob := by
  induction forms generalizing before with
  | nil => cases hentry
  | cons form forms ih =>
    rw [List.flatMap_cons, ← List.append_assoc] at h
    have hform := Form.liesIn ((List.prefix_append _ _).trans h)
    have hrest := ih h
    rw [List.length_append] at hrest
    obtain ⟨kind, key, value⟩ := form
    cases kind with
    | text =>
      rcases List.mem_cons.1 hentry with rfl | hentry
      · exact hform
      · exact hrest hentry
    | note => exact hrest hentry

/-- The accumulator of a length does not overflow: it is the number that the
digits stand for, as long as there are no more of them than a length has. -/
theorem toNat_foldl_pushDigit {digits : Bytes} (h : digits.length ≤ 4) :
    (digits.foldl pushDigit 0).toNat = digitsValue digits := by
  induction digits using List.reverseRecOn with
  | nil => rfl
  | append_singleton digits digit ih =>
    rw [List.length_append, List.length_singleton] at h
    have hvalue := ih (by omega)
    have hlt := digitsValue_lt (show digits.length ≤ 3 by omega)
    rw [List.foldl_append, List.foldl_cons, List.foldl_nil, toNat_pushDigit _ (hvalue ▸ hlt),
      hvalue, digitsValue_concat]

/-- **A walk follows the longest run of items.**  At the front of every blob
stands exactly one longest sequence of written items.  Asked again and again, the
walk yields the entries of its text items in their order, each at its place in the
blob, and then nothing; no call halts. -/
theorem walk_follows_longest (blob : Bytes) :
    ∃ forms, (Longest forms blob ∧ ∀ others, Longest others blob → others = forms) ∧
      (∀ k, call k (.whole blob) = .ok (entriesAt 0 forms)[k]?) ∧
      (entries blob = (forms.filter (·.kind = .text)).map fun form =>
        (form.key.content, form.value.content)) ∧
      (∀ entry ∈ entriesAt 0 forms, entry.key.LiesIn blob ∧ entry.value.LiesIn blob) ∧
      ∀ digits : Bytes, digits.length ≤ 4 →
        (digits.foldl pushDigit 0).toNat = digitsValue digits := by
  obtain ⟨forms, hforms⟩ := exists_exhausts blob
  have hlongest := longest_iff.2 hforms
  refine ⟨forms, ⟨hlongest, fun others => hlongest.eq⟩, fun k => ?_, entries_eq hforms,
    fun entry hentry => ?_, fun digits => toNat_foldl_pushDigit⟩
  · rw [call_eq, entriesFrom_eq (show Exhausts forms (Slice.whole blob).bytes from hforms)]
    rfl
  · exact liesIn_of_mem_entriesAt (show [] ++ _ <+: blob from hforms.opens) hentry

end ProductData
end BootHandoff

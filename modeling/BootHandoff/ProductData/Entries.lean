/-
# Going through the entries of vital product data

Lookups see the text items of a blob alone.  `next` goes on from a place in the
blob to the next of them and answers with its key and value and the place behind
it.  The walk ends at the first place where no whole item stands: at the end of
the blob, at a byte that is no kind (`00` and `ff` are the usual ones), or at an
item that is cut off.  From there on nothing lies ahead.
-/

import BootHandoff.ProductData.Item

namespace BootHandoff
namespace ProductData

variable {ahead rest : Slice} {item : Item} {entry : Entry}

/-- What follows an item is shorter than what the item stood in front of. -/
theorem length_lt_of_readItem (h : readItem ahead = .ok (some (item, rest))) :
    rest.bytes.length < ahead.bytes.length := by
  rcases readItem_cases ahead with ⟨form, hprefix, hitem⟩ | ⟨-, hitem⟩ <;> rw [hitem] at h <;>
    cases h
  have hlen := hprefix.length_le
  rw [form.length_bytes] at hlen
  simp [form.length_bytes]
  omega

/-- The next entry of a blob of which `ahead` lies ahead, and what then lies
ahead. -/
def next (ahead : Slice) : Except Halt (Option Entry × Slice) :=
  match _h : readItem ahead with
  | .error halt => .error halt
  | .ok none => .ok (none, .empty)
  | .ok (some (item, rest)) =>
    match item.kind with
    | .text => .ok (some item.entry, rest)
    | .note => next rest
termination_by ahead.bytes.length
decreasing_by exact length_lt_of_readItem _h

theorem next_of_none (h : readItem ahead = .ok none) : next ahead = .ok (none, .empty) := by
  rw [next]
  split <;> simp_all

theorem next_of_text (h : readItem ahead = .ok (some (⟨.text, entry⟩, rest))) :
    next ahead = .ok (some entry, rest) := by
  rw [next]
  split <;> simp_all

theorem next_of_note (h : readItem ahead = .ok (some (⟨.note, entry⟩, rest))) :
    next ahead = next rest := by
  rw [next]
  split <;> simp_all

/-- **Going on never halts,** and finds an entry only by taking bytes off what
lies ahead. -/
theorem next_cases (ahead : Slice) :
    (∃ entry rest, next ahead = .ok (some entry, rest) ∧
      rest.bytes.length < ahead.bytes.length) ∨
    next ahead = .ok (none, .empty) := by
  fun_induction next ahead with
  | case1 ahead halt h => rcases readItem_cases ahead with ⟨_, -, h'⟩ | ⟨-, h'⟩ <;> simp [h'] at h
  | case2 => exact .inr rfl
  | case3 ahead item rest h => exact .inl ⟨_, _, rfl, length_lt_of_readItem h⟩
  | case4 ahead item rest h _ ih =>
    rcases ih with ⟨entry, rest', hnext, hlt⟩ | hnext
    · exact .inl ⟨entry, rest', hnext, Nat.lt_trans hlt (length_lt_of_readItem h)⟩
    · exact .inr hnext

theorem next_ne_error (ahead : Slice) (halt : Halt) : next ahead ≠ .error halt := by
  rcases next_cases ahead with ⟨entry, rest, h, -⟩ | h <;> simp [h]

theorem length_lt_of_next (h : next ahead = .ok (some entry, rest)) :
    rest.bytes.length < ahead.bytes.length := by
  rcases next_cases ahead with ⟨entry, rest, h', hlt⟩ | h' <;> rw [h'] at h <;> cases h
  exact hlt

/-- The entries that going on to the end finds. -/
def entriesFrom (ahead : Slice) : List Entry :=
  match h : next ahead with
  | .error halt => absurd h (next_ne_error ahead halt)
  | .ok (none, _) => []
  | .ok (some entry, rest) => entry :: entriesFrom rest
termination_by ahead.bytes.length
decreasing_by exact length_lt_of_next h

theorem entriesFrom_of_none (h : next ahead = .ok (none, rest)) : entriesFrom ahead = [] := by
  rw [entriesFrom]
  split <;> simp_all

theorem entriesFrom_of_some (h : next ahead = .ok (some entry, rest)) :
    entriesFrom ahead = entry :: entriesFrom rest := by
  rw [entriesFrom]
  split <;> simp_all

theorem entriesFrom_congr (h : next ahead = next rest) : entriesFrom ahead = entriesFrom rest := by
  rcases next_cases rest with ⟨entry, behind, hrest, -⟩ | hrest
  · rw [entriesFrom_of_some (h.trans hrest), entriesFrom_of_some hrest]
  · rw [entriesFrom_of_none (h.trans hrest), entriesFrom_of_none hrest]

/-- The keys and values of a blob, in their order. -/
def entries (blob : Bytes) : List (Bytes × Bytes) :=
  (entriesFrom (.whole blob)).map fun entry => (entry.key.bytes, entry.value.bytes)

/-- The value of a key in a blob: that of the first entry with it. -/
def find? (blob : Bytes) (key : String) : Option Bytes :=
  ((entries blob).find? fun entry => entry.1 == Bytes.ofText key).map Prod.snd

end ProductData
end BootHandoff

/-
# More bytes behind a blob

Product data may be read from a whole flash area, or from the part of it that a header
names, and a blob may be cut off anywhere: in a length, in a key, in a value.  An item that
was read from the shorter of two such blobs is read from the longer one too, for whether an
item stands at a place is decided by its own bytes (`readItem_extend`).  So the two walks go
together to the place where the walk of the shorter blob ends (`entriesFrom_extend`).

What the longer blob can add depends on that place (`form_cases`).

| the walk of a blob ends at | a longer blob adds |
| --- | --- |
| a byte that is no kind of item | nothing |
| a kind, and a length of more than four digits for its key or its value | nothing |
| the end of the blob, or an item that is cut off | what completes the item, and what follows |
-/

import BootHandoff.Proofs.ProductData.Walk

namespace BootHandoff

/-- The slice of a longer string that goes on behind it. -/
def Slice.extend (s : Slice) (more : Bytes) : Slice := ⟨s.start, s.bytes ++ more⟩

theorem Slice.skip_extend {s : Slice} {n : Nat} (h : n ≤ s.bytes.length) (more : Bytes) :
    (s.extend more).skip n = (s.skip n).extend more := by
  simp only [skip, extend, List.drop_append_of_le_length h]

namespace ProductData

variable {n : Nat} {bs rest digits digits' : Bytes} {ahead behind : Slice} {item : Item}

/-- An item that was read is read as well when more bytes follow. -/
theorem readItem_extend (h : readItem ahead = .ok (some (item, behind))) (more : Bytes) :
    readItem (ahead.extend more) = .ok (some (item, behind.extend more)) := by
  rcases readItem_cases ahead with ⟨form, hform, hread⟩ | ⟨-, hread⟩ <;> rw [hread] at h <;> cases h
  have hfront : form.bytes <+: (ahead.extend more).bytes := hform.trans (List.prefix_append _ _)
  rw [readItem_of_front hfront, Slice.skip_extend hform.length_le]
  rfl

/-- Reading an item that is never there finds none. -/
theorem readItem_of_forall_ne (h : ∀ item behind, readItem ahead ≠ .ok (some (item, behind))) :
    readItem ahead = .ok none := by
  rcases readItem_cases ahead with ⟨form, -, hread⟩ | ⟨-, hread⟩
  · exact absurd hread (h _ _)
  · exact hread

/-- The place where going through the items that lie ahead comes to its end. -/
def walkEnd (ahead : Slice) : Slice :=
  match _h : readItem ahead with
  | .ok (some (_, behind)) => walkEnd behind
  | _ => ahead
termination_by ahead.bytes.length
decreasing_by exact length_lt_of_readItem _h

/-- The walk ends where no item stands. -/
theorem readItem_walkEnd (ahead : Slice) : readItem (walkEnd ahead) = .ok none := by
  fun_induction walkEnd ahead with
  | case1 ahead item behind h ih => exact ih
  | case2 ahead hnone => exact readItem_of_forall_ne hnone

theorem not_front_walkEnd (ahead : Slice) (form : Form) :
    ¬form.bytes <+: (walkEnd ahead).bytes := by
  intro hform
  have hread := readItem_of_front hform
  rw [readItem_walkEnd] at hread
  cases hread

/-- **A walk goes on where the walk of a shorter blob ends,** behind the entries that the
shorter one has. -/
theorem entriesFrom_extend (ahead : Slice) (more : Bytes) :
    entriesFrom (ahead.extend more) =
      entriesFrom ahead ++ entriesFrom ((walkEnd ahead).extend more) := by
  fun_induction walkEnd ahead with
  | case1 ahead item behind h ih =>
    have hlonger := readItem_extend h more
    obtain ⟨kind, entry⟩ := item
    cases kind with
    | text =>
      rw [entriesFrom_of_some (next_of_text hlonger), entriesFrom_of_some (next_of_text h), ih,
        List.cons_append]
    | note =>
      rw [entriesFrom_congr (next_of_note hlonger), entriesFrom_congr (next_of_note h), ih]
  | case2 ahead hnone =>
    rw [entriesFrom_of_none (next_of_none (readItem_of_forall_ne hnone)), List.nil_append]

/-- Four digits that all have others behind them, so that they start no length but one of five
digits or more, which is none. -/
def Overlong (digits : Bytes) : Prop := digits.length = 4 ∧ ∀ b ∈ digits, 0x80 ≤ b

/-- No length starts with digits that are too many for one. -/
theorem Overlong.not_front (h : Overlong digits) (hlength : IsLength n digits') :
    ¬digits' <+: digits ++ rest := by
  intro hfront
  have hle : digits'.length ≤ digits.length := h.1 ▸ hlength.length_le
  exact hlength.not_opens h.2 (List.prefix_of_prefix_length_le hfront (List.prefix_append _ _) hle)

/-- **The bytes rule out an item:** none stands at their front, and none comes to stand there when
more bytes follow. -/
inductive Closed : Bytes → Prop where
  /-- The first byte is no kind of item: it is a terminator, or a kind that is not known. -/
  | kind {b : UInt8} (rest : Bytes) (htext : b ≠ 0x01) (hnote : b ≠ 0xfe) : Closed (b :: rest)
  /-- The length of the key goes on for too long. -/
  | keyLength (kind : ItemKind) {digits : Bytes} (rest : Bytes) (h : Overlong digits) :
    Closed (kind.byte :: (digits ++ rest))
  /-- The length of the value goes on for too long. -/
  | valueLength (kind : ItemKind) (key : Field) {digits : Bytes} (rest : Bytes)
    (h : Overlong digits) : Closed (kind.byte :: (key.bytes ++ (digits ++ rest)))

theorem Closed.append (h : Closed bs) (more : Bytes) : Closed (bs ++ more) := by
  cases h with
  | kind rest htext hnote => exact .kind (rest ++ more) htext hnote
  | keyLength kind rest h =>
    rw [List.cons_append, List.append_assoc]
    exact .keyLength kind (rest ++ more) h
  | valueLength kind key rest h =>
    rw [List.cons_append, List.append_assoc, List.append_assoc]
    exact .valueLength kind key (rest ++ more) h

theorem Closed.not_front (h : Closed bs) (form : Form) : ¬form.bytes <+: bs := by
  intro hform
  cases h with
  | kind rest htext hnote =>
    obtain ⟨hbyte, -⟩ := List.cons_prefix_cons.1 hform
    cases hkind : form.kind with
    | text => exact htext (hbyte ▸ hkind ▸ rfl)
    | note => exact hnote (hbyte ▸ hkind ▸ rfl)
  | keyLength kind rest h =>
    obtain ⟨-, hfields⟩ := List.cons_prefix_cons.1 hform
    have hdigits : form.key.digits <+: _ :=
      (List.prefix_append _ _).trans ((List.prefix_append _ _).trans hfields)
    exact h.not_front form.key.isLength hdigits
  | valueLength kind key rest h =>
    obtain ⟨-, hfields⟩ := List.cons_prefix_cons.1 hform
    -- Both keys stand at one place, so the value of the form stands where the digits do.
    have hkey : form.key = key :=
      Field.eq_of_front ((List.prefix_append _ _).trans hfields) (List.prefix_append _ _)
    rw [hkey, List.prefix_append_right_inj] at hfields
    exact h.not_front form.value.isLength ((List.prefix_append _ _).trans hfields)

theorem entriesFrom_of_closed (h : Closed ahead.bytes) : entriesFrom ahead = [] :=
  entriesFrom_of_none (next_of_none (readItem_eq_none h.not_front))

/-- A string of bytes starts with digits that have others behind them, up to its end or to a
digit that has not. -/
theorem exists_lead (bs : Bytes) :
    ∃ lead, (∀ b ∈ lead, 0x80 ≤ b) ∧
      (bs = lead ∨ ∃ last rest, last < 0x80 ∧ bs = lead ++ last :: rest) := by
  induction bs with
  | nil => exact ⟨[], nofun, .inl rfl⟩
  | cons b bs ih =>
    by_cases hb : b < 0x80
    · exact ⟨[], nofun, .inr ⟨b, bs, hb, rfl⟩⟩
    · obtain ⟨lead, hlead, hrest⟩ := ih
      refine ⟨b :: lead, List.forall_mem_cons.2 ⟨UInt8.not_lt.1 hb, hlead⟩, ?_⟩
      rcases hrest with rfl | ⟨last, rest, hlast, rfl⟩
      · exact .inl rfl
      · exact .inr ⟨last, rest, hlast, rfl⟩

/-- **What can stand where a length is expected:** a length, too many digits for one, or the
first digits of one. -/
theorem length_cases (bs : Bytes) :
    (∃ n digits rest, IsLength n digits ∧ bs = digits ++ rest) ∨
    (∃ digits rest, Overlong digits ∧ bs = digits ++ rest) ∨
    ∃ n last, IsLength n (bs ++ [last]) := by
  obtain ⟨lead, hlead, hrest⟩ := exists_lead bs
  rcases Nat.lt_or_ge lead.length 4 with hshort | hlong
  · rcases hrest with rfl | ⟨last, rest, hlast, rfl⟩
    · exact .inr (.inr ⟨_, 0, bs, 0, rfl, hshort, hlead, by decide, rfl⟩)
    · exact .inl ⟨_, lead ++ [last], rest, ⟨lead, last, rfl, hshort, hlead, hlast, rfl⟩, by simp⟩
  · have hoverlong : Overlong (lead.take 4) :=
      ⟨List.length_take_of_le hlong, fun b hb => hlead b (List.mem_of_mem_take hb)⟩
    have hfront : lead.take 4 <+: bs := by
      refine (List.take_prefix _ _).trans ?_
      rcases hrest with rfl | ⟨last, rest, -, rfl⟩
      · exact List.prefix_rfl
      · exact List.prefix_append _ _
    obtain ⟨rest, hrest⟩ := hfront
    exact .inr (.inl ⟨_, rest, hoverlong, hrest.symm⟩)

/-- **What can stand where a key or a value is expected:** one that is whole, a length that is
none, or one that is cut off. -/
theorem field_cases (bs : Bytes) :
    (∃ (f : Field) (rest : Bytes), bs = f.bytes ++ rest) ∨
    (∃ digits rest, Overlong digits ∧ bs = digits ++ rest) ∨
    ∃ f : Field, bs <+: f.bytes := by
  rcases length_cases bs with ⟨n, digits, rest, hlength, rfl⟩ | hoverlong | ⟨n, last, hlength⟩
  · rcases Nat.le_total n rest.length with hwhole | hcut
    · have hcontent : (rest.take n).length = n := List.length_take_of_le hwhole
      let f : Field := ⟨digits, rest.take n, hcontent.symm ▸ hlength⟩
      exact .inl ⟨f, rest.drop n, by simp [f, Field.bytes]⟩
    · have hcontent : (rest ++ List.replicate (n - rest.length) 0).length = n := by
        rw [List.length_append, List.length_replicate]
        omega
      let f : Field := ⟨digits, rest ++ List.replicate (n - rest.length) 0, hcontent.symm ▸ hlength⟩
      exact .inr (.inr ⟨f, List.replicate (n - rest.length) 0, by simp [f, Field.bytes]⟩)
  · exact .inr (.inl hoverlong)
  · let f : Field := ⟨bs ++ [last], List.replicate n 0, List.length_replicate.symm ▸ hlength⟩
    exact .inr (.inr ⟨f, last :: List.replicate n 0, by simp [f, Field.bytes]⟩)

/-- The field of no bytes. -/
def Field.empty : Field := ⟨[0], [], [], 0, rfl, by decide, nofun, by decide, rfl⟩

/-- An item, or the beginning of one, stands at the front of the bytes, or they rule out an
item. -/
theorem form_cases (bs : Bytes) :
    (∃ form : Form, form.bytes <+: bs) ∨ Closed bs ∨ ∃ form : Form, bs <+: form.bytes := by
  rcases bs with _ | ⟨b, bs⟩
  · exact .inr (.inr ⟨⟨.text, .empty, .empty⟩, List.nil_prefix⟩)
  cases hkind : ItemKind.ofByte? b with
  | none =>
    have hother : ∀ kind : ItemKind, b ≠ kind.byte := fun kind hbyte => by
      rw [ItemKind.ofByte?_eq_some_iff.2 hbyte] at hkind
      cases hkind
    exact .inr (.inl (.kind bs (hother .text) (hother .note)))
  | some kind =>
    obtain rfl := ItemKind.ofByte?_eq_some_iff.1 hkind
    rcases field_cases bs with ⟨key, bs, rfl⟩ | ⟨digits, rest, hoverlong, rfl⟩ | ⟨key, hkey⟩
    · rcases field_cases bs with ⟨value, rest, rfl⟩ | ⟨digits, rest, hoverlong, rfl⟩ |
        ⟨value, hvalue⟩
      · exact .inl ⟨⟨kind, key, value⟩, rest, by simp [Form.bytes]⟩
      · exact .inr (.inl (.valueLength kind key rest hoverlong))
      · exact .inr (.inr ⟨⟨kind, key, value⟩,
          List.cons_prefix_cons.2 ⟨rfl, (List.prefix_append_right_inj _).2 hvalue⟩⟩)
    · exact .inr (.inl (.keyLength kind rest hoverlong))
    · exact .inr (.inr ⟨⟨kind, key, .empty⟩,
        List.cons_prefix_cons.2 ⟨rfl, hkey.trans (List.prefix_append _ _)⟩⟩)

/-- **What is cut off can be completed,** and an entry can follow it. -/
theorem exists_entry_of_not_closed (h : ¬Closed (walkEnd ahead).bytes) :
    ∃ more, entriesFrom ((walkEnd ahead).extend more) ≠ [] := by
  rcases form_cases (walkEnd ahead).bytes with ⟨form, hform⟩ | hclosed | ⟨form, more, hform⟩
  · exact absurd hform (not_front_walkEnd ahead form)
  · exact absurd hclosed h
  -- Whatever the item is, the text behind it has an entry.
  let text : Form := ⟨.text, .empty, .empty⟩
  have hexhausts : Exhausts [form, text] ((walkEnd ahead).extend (more ++ text.bytes)).bytes := by
    refine ⟨[], ?_, fun other hother => List.cons_ne_nil _ _ (List.prefix_nil.1 hother)⟩
    rw [Slice.extend, ← List.append_assoc, hform]
    simp
  refine ⟨more ++ text.bytes, ?_⟩
  rw [entriesFrom_eq hexhausts]
  obtain ⟨kind, key, value⟩ := form
  cases kind <;> exact List.cons_ne_nil _ _

/-- The entries of a blob are the first entries of every longer one. -/
theorem entries_append (blob more : Bytes) :
    entries (blob ++ more) = entries blob ++
      (entriesFrom ((walkEnd (.whole blob)).extend more)).map fun entry =>
        (entry.key.bytes, entry.value.bytes) := by
  rw [entries, show Slice.whole (blob ++ more) = (Slice.whole blob).extend more from rfl,
    entriesFrom_extend, List.map_append]
  rfl

/-- **More bytes behind a blob take nothing away.**  The entries of a blob are the first ones of
every longer blob, and what a lookup finds in a blob it finds in every longer one.  The longer
blobs have no other entries exactly if the walk of the shorter one ends where the bytes rule out
an item: at a terminator, at a kind that is not known, or at a length of too many digits. -/
theorem entries_of_longer (blob : Bytes) :
    (∀ more, entries blob <+: entries (blob ++ more)) ∧
    (∀ more key value, find? blob key = some value → find? (blob ++ more) key = some value) ∧
    (Closed (walkEnd (.whole blob)).bytes ↔ ∀ more, entries (blob ++ more) = entries blob) := by
  refine ⟨fun more => ?_, fun more key value hfind => ?_, fun hclosed more => ?_, fun h => ?_⟩
  · rw [entries_append]
    exact List.prefix_append _ _
  · obtain ⟨entry, hentry, rfl⟩ := Option.map_eq_some_iff.1 hfind
    rw [find?, entries_append, List.find?_append, hentry]
    rfl
  · have hnone : entriesFrom ((walkEnd (.whole blob)).extend more) = [] :=
      entriesFrom_of_closed (hclosed.append more)
    rw [entries_append, hnone, List.map_nil, List.append_nil]
  · by_contra hopen
    obtain ⟨more, hmore⟩ := exists_entry_of_not_closed hopen
    have hsame := h more
    rw [entries_append, List.append_right_eq_self, List.map_eq_nil_iff] at hsame
    exact hmore hsame

end ProductData
end BootHandoff

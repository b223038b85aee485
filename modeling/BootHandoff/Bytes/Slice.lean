/-
# Slices of a byte string

A slice is a stretch of a byte string that knows where in the string it starts.
Code that takes a string apart passes slices around and copies nothing, so what
it finds can be told apart from equal bytes elsewhere in the string.

| operation | halts when |
| --- | --- |
| `uncons?` | never; a slice of no bytes has no first byte |
| `behind`, `splitAt` | the slice has fewer bytes than the cut leaves in front |
-/

import BootHandoff.Bytes.Basic
import BootHandoff.Outcome

namespace BootHandoff

/-- A stretch of a byte string. -/
@[ext] structure Slice where
  /-- The place in the string at which the slice starts. -/
  start : Nat
  bytes : Bytes
  deriving DecidableEq, Repr, Inhabited

namespace Slice

/-- The whole of a byte string. -/
def whole (bs : Bytes) : Slice := ⟨0, bs⟩

/-- The slice of no bytes. -/
def empty : Slice := ⟨0, []⟩

/-- The slice has `n` bytes or more.  This is found out without going through
all that follows them. -/
def Has (s : Slice) (n : Nat) : Prop := (s.bytes.take n).length = n

instance (s : Slice) (n : Nat) : Decidable (s.Has n) := inferInstanceAs (Decidable (_ = _))

/-- What lies behind the first `n` bytes, if any. -/
def skip (s : Slice) (n : Nat) : Slice := ⟨s.start + n, s.bytes.drop n⟩

/-- The first byte, and what lies behind it. -/
def uncons? : Slice → Option (UInt8 × Slice)
  | ⟨_, []⟩ => none
  | ⟨start, b :: bs⟩ => some (b, ⟨start + 1, bs⟩)

/-- What lies behind the first `n` bytes, which have to be there. -/
def behind (s : Slice) (n : Nat) : Except Halt Slice :=
  if s.Has n then .ok (s.skip n) else .error .indexOutOfBounds

/-- The first `n` bytes, which have to be there, and what lies behind them. -/
def splitAt (s : Slice) (n : Nat) : Except Halt (Slice × Slice) :=
  if s.Has n then .ok (⟨s.start, s.bytes.take n⟩, s.skip n) else .error .indexOutOfBounds

theorem has_iff {s : Slice} {n : Nat} : s.Has n ↔ n ≤ s.bytes.length := by
  unfold Has
  rw [List.length_take]
  omega

@[simp] theorem start_skip (s : Slice) (n : Nat) : (s.skip n).start = s.start + n := rfl

@[simp] theorem bytes_skip (s : Slice) (n : Nat) : (s.skip n).bytes = s.bytes.drop n := rfl

theorem skip_skip (s : Slice) (n k : Nat) : (s.skip n).skip k = s.skip (n + k) := by
  simp [skip, Nat.add_assoc]

theorem skip_cons (start : Nat) (b : UInt8) (bs : Bytes) (n : Nat) :
    (⟨start, b :: bs⟩ : Slice).skip (n + 1) = (⟨start + 1, bs⟩ : Slice).skip n := by
  simp [skip]
  omega

theorem behind_of_le {s : Slice} {n : Nat} (h : n ≤ s.bytes.length) :
    s.behind n = .ok (s.skip n) := if_pos (has_iff.2 h)

theorem splitAt_of_le {s : Slice} {n : Nat} (h : n ≤ s.bytes.length) :
    s.splitAt n = .ok (⟨s.start, s.bytes.take n⟩, s.skip n) := if_pos (has_iff.2 h)

end Slice

end BootHandoff

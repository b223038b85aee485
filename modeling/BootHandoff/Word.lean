/-
# Machine words whose sums and products may not fit

Addresses, sizes and offsets are unsigned words of 32 or 64 bits.  Where the
boot code computes with them it must know whether the result still fits, so
each operation here answers `none` instead of a wrapped word.

| operation | answers `none` when |
| --- | --- |
| `add32?`, `add64?` | the sum reaches `2 ^ 32`, `2 ^ 64` |
| `mul64?` | the product reaches `2 ^ 64` |
| `sub64?` | the difference is negative |
| `shiftLeft32?`, `shiftRight32?` | the distance reaches 32 |
-/

namespace BootHandoff
namespace Word

/-- The sum of two 32-bit words, if it is one. -/
def add32? (a b : UInt32) : Option UInt32 :=
  if a.toNat + b.toNat < UInt32.size then some (a + b) else none

/-- The sum of two 64-bit words, if it is one. -/
def add64? (a b : UInt64) : Option UInt64 :=
  if a.toNat + b.toNat < UInt64.size then some (a + b) else none

/-- The product of two 64-bit words, if it is one. -/
def mul64? (a b : UInt64) : Option UInt64 :=
  if a.toNat * b.toNat < UInt64.size then some (a * b) else none

/-- The difference of two 64-bit words, if it is one. -/
def sub64? (a b : UInt64) : Option UInt64 :=
  if b ≤ a then some (a - b) else none

/-- A 32-bit word moved up by `n` places; what leaves the word is lost. -/
def shiftLeft32? (a n : UInt32) : Option UInt32 :=
  if n < 32 then some (a <<< n) else none

/-- A 32-bit word moved down by `n` places; what leaves the word is lost. -/
def shiftRight32? (a n : UInt32) : Option UInt32 :=
  if n < 32 then some (a >>> n) else none

/-- **A 32-bit sum is the sum of the numbers.** -/
theorem add32?_eq_some_iff {a b c : UInt32} :
    add32? a b = some c ↔ a.toNat + b.toNat = c.toNat := by
  unfold add32?
  have hc := c.toNat_lt
  constructor
  · intro h
    split at h
    · rename_i hlt
      rw [← Option.some.inj h, UInt32.toNat_add, Nat.mod_eq_of_lt hlt]
    · simp at h
  · intro h
    have hlt : a.toNat + b.toNat < UInt32.size := h ▸ hc
    rw [if_pos hlt]
    congr 1
    apply UInt32.toNat_inj.1
    rw [UInt32.toNat_add, Nat.mod_eq_of_lt hlt, h]

/-- There is no sum exactly when the sum of the numbers is no word. -/
theorem add32?_eq_none_iff {a b : UInt32} :
    add32? a b = none ↔ UInt32.size ≤ a.toNat + b.toNat := by
  unfold add32?
  split
  · rename_i hlt
    exact ⟨nofun, fun hle => absurd hlt (Nat.not_lt.2 hle)⟩
  · rename_i hge
    exact ⟨fun _ => Nat.not_lt.1 hge, fun _ => rfl⟩

/-- **A 64-bit sum is the sum of the numbers.** -/
theorem add64?_eq_some_iff {a b c : UInt64} :
    add64? a b = some c ↔ a.toNat + b.toNat = c.toNat := by
  unfold add64?
  have hc := c.toNat_lt
  constructor
  · intro h
    split at h
    · rename_i hlt
      rw [← Option.some.inj h, UInt64.toNat_add, Nat.mod_eq_of_lt hlt]
    · simp at h
  · intro h
    have hlt : a.toNat + b.toNat < UInt64.size := h ▸ hc
    rw [if_pos hlt]
    congr 1
    apply UInt64.toNat_inj.1
    rw [UInt64.toNat_add, Nat.mod_eq_of_lt hlt, h]

/-- **A 64-bit product is the product of the numbers.** -/
theorem mul64?_eq_some_iff {a b c : UInt64} :
    mul64? a b = some c ↔ a.toNat * b.toNat = c.toNat := by
  unfold mul64?
  have hc := c.toNat_lt
  constructor
  · intro h
    split at h
    · rename_i hlt
      rw [← Option.some.inj h, UInt64.toNat_mul, Nat.mod_eq_of_lt hlt]
    · simp at h
  · intro h
    have hlt : a.toNat * b.toNat < UInt64.size := h ▸ hc
    rw [if_pos hlt]
    congr 1
    apply UInt64.toNat_inj.1
    rw [UInt64.toNat_mul, Nat.mod_eq_of_lt hlt, h]

theorem sub64?_of_le {a b : UInt64} (h : b ≤ a) : sub64? a b = some (a - b) := if_pos h

end Word
end BootHandoff

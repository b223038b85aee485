/-
# The bits of a packed id

A layout says which bits of the id each piece takes.  In a `Tiled` layout no two pieces
take the same bit, and no piece leaves its word.  Nothing more is asked: pieces may stand
in any order, leave gaps, take a whole word or no bit at all, and reach beyond the last
bit of their fuse.

Laying a piece over an id sets the bits that it takes and that are set in its fuse, and
leaves every other bit (`Piece.Fits.holds_place`).  So a bit of the packed id is set if
some piece sets it (`exists_pack`), whatever the order of the pieces.  In a tiled layout
the piece that takes the bit is the only one that could.
-/

import BootHandoff.Proofs.ChipId.Numbering
import Mathlib.Data.List.Pairwise

namespace BootHandoff
namespace ChipId

variable {fuses : Fuses} {layout : List Piece} {p : Piece} {uid : Uid} {word i : Nat}

/-- The bit of the id in the given word and place is set. -/
def Holds (uid : Uid) (word i : Nat) : Prop := ∃ h : word < 4, uid[word].toNat.testBit i = true

/-- The bit of the fuse is set. -/
def Fuses.Holds (fuses : Fuses) (f : Fuse) (i : Nat) : Prop :=
  (fuses.value f).toNat.testBit i = true

instance (f : Fuse) : Decidable (fuses.Holds f i) := inferInstanceAs (Decidable (_ = _))

/-- A piece takes a bit of the id. -/
structure Piece.Covers (p : Piece) (word i : Nat) : Prop where
  word : p.word = word
  above : p.destShift.toNat ≤ i
  below : i < p.destShift.toNat + p.width.toNat

/-- A piece sets a bit of the id: it takes it, and the bit of its fuse that goes there is
set. -/
def Piece.Sets (fuses : Fuses) (p : Piece) (word i : Nat) : Prop :=
  p.Covers word i ∧ fuses.Holds p.source (p.sourceShift.toNat + (i - p.destShift.toNat))

/-- Two pieces take no bit in common. -/
def Piece.Apart (p q : Piece) : Prop := ∀ word i, p.Covers word i → ¬q.Covers word i

/-- The pieces fit, none leaves its word, and no two take the same bit. -/
structure Tiled (layout : List Piece) : Prop where
  fits : ∀ p ∈ layout, p.Fits
  within : ∀ p ∈ layout, p.destShift.toNat + p.width.toNat ≤ 32
  apart : layout.Pairwise Piece.Apart

/-- Pieces are apart if they go to different words, or one has no bit, or one ends before
the other begins. -/
theorem Piece.apart_iff {p q : Piece} :
    p.Apart q ↔ p.word ≠ q.word ∨ p.width.toNat = 0 ∨ q.width.toNat = 0 ∨
      p.destShift.toNat + p.width.toNat ≤ q.destShift.toNat ∨
      q.destShift.toNat + q.width.toNat ≤ p.destShift.toNat := by
  constructor
  · intro h
    by_contra hmeet
    -- Where they meet, the higher of the two lowest bits is a bit of both.
    have hbit := h p.word (max p.destShift.toNat q.destShift.toNat)
      ⟨rfl, by omega, by omega⟩
    exact hbit ⟨by omega, by omega, by omega⟩
  · rintro h word i ⟨rfl, hpabove, hpbelow⟩ ⟨hword, hqabove, hqbelow⟩
    omega

instance : DecidableRel Piece.Apart := fun _ _ => decidable_of_iff' _ Piece.apart_iff

instance : Std.Symm Piece.Apart := ⟨fun _ _ h word i hq hp => h word i hp hq⟩

instance : Decidable (Tiled layout) :=
  decidable_of_iff
    ((∀ p ∈ layout, p.Fits) ∧ (∀ p ∈ layout, p.destShift.toNat + p.width.toNat ≤ 32) ∧
      layout.Pairwise Piece.Apart)
    ⟨fun ⟨hfits, hwithin, hapart⟩ => ⟨hfits, hwithin, hapart⟩,
      fun h => ⟨h.fits, h.within, h.apart⟩⟩

/-- Ids of the same bits are the same. -/
theorem eq_of_holds_iff {uid uid' : Uid} (h : ∀ word i, Holds uid word i ↔ Holds uid' word i) :
    uid = uid' := by
  refine Vector.ext fun word hword => UInt32.toNat.inj (Nat.eq_of_testBit_eq fun i => ?_)
  refine Bool.eq_iff_iff.2 ⟨fun hbit => ?_, fun hbit => ?_⟩
  · exact ((h word i).1 ⟨hword, hbit⟩).2
  · exact ((h word i).2 ⟨hword, hbit⟩).2

theorem not_holds_zero : ¬Holds (Vector.replicate 4 0) word i := by
  rintro ⟨hword, hbit⟩
  rw [Vector.getElem_replicate, UInt32.toNat_zero, Nat.zero_testBit] at hbit
  cases hbit

/-- The bits that a piece lays over its word are those it sets. -/
theorem Piece.Fits.sets_iff (h : p.Fits) (hwithin : p.destShift.toNat + p.width.toNat ≤ 32) :
    p.Sets fuses word i ↔ p.word = word ∧ (p.cut fuses).toNat.testBit i = true := by
  unfold Sets Fuses.Holds
  rw [h.toNat_cut hwithin, amount, Nat.testBit_mul_two_pow, Nat.testBit_mod_two_pow,
    Nat.testBit_div_two_pow, Nat.add_comm (i - _), Bool.and_eq_true, Bool.and_eq_true,
    decide_eq_true_iff, decide_eq_true_iff]
  constructor
  · rintro ⟨⟨hword, habove, hbelow⟩, hfuse⟩
    exact ⟨hword, habove, by omega, hfuse⟩
  · rintro ⟨hword, habove, hbelow, hfuse⟩
    exact ⟨⟨hword, habove, by omega⟩, hfuse⟩

/-- **Laying a piece over an id sets the bits that the piece sets**, and leaves the
others. -/
theorem Piece.Fits.holds_place (h : p.Fits) (hwithin : p.destShift.toNat + p.width.toNat ≤ 32)
    (fuses : Fuses) (uid : Uid) :
    ∃ placed, p.place fuses uid = .ok placed ∧
      ∀ word i, Holds placed word i ↔ Holds uid word i ∨ p.Sets fuses word i := by
  refine ⟨_, h.place_eq_ok h.word fuses uid, fun word i => ?_⟩
  rw [h.sets_iff hwithin]
  by_cases hword : p.word = word
  · subst hword
    simp only [Holds, Vector.getElem_set_self, UInt32.toNat_or, Nat.testBit_or, Bool.or_eq_true,
      h.word, exists_true_left, true_and]
  · simp only [Holds, Vector.getElem_set_ne _ _ hword, hword, false_and, or_false]

/-- **A bit of the packed id is set if some piece sets it.** -/
theorem exists_pack (hfits : ∀ p ∈ layout, p.Fits)
    (hwithin : ∀ p ∈ layout, p.destShift.toNat + p.width.toNat ≤ 32) (fuses : Fuses) :
    ∃ uid, pack fuses layout = .ok uid ∧
      ∀ word i, Holds uid word i ↔ ∃ p ∈ layout, p.Sets fuses word i := by
  have hfold : ∀ uid, ∃ packed, layout.foldlM (Piece.place fuses) uid = .ok packed ∧
      ∀ word i, Holds packed word i ↔ Holds uid word i ∨ ∃ p ∈ layout, p.Sets fuses word i := by
    intro uid
    induction layout generalizing uid with
    | nil => exact ⟨uid, rfl, by simp⟩
    | cons p rest ih =>
      obtain ⟨hp, hrest⟩ := List.forall_mem_cons.1 hfits
      obtain ⟨hpin, hrestin⟩ := List.forall_mem_cons.1 hwithin
      obtain ⟨placed, hplace, hplaced⟩ := hp.holds_place hpin fuses uid
      obtain ⟨packed, hpack, hpacked⟩ := ih hrest hrestin placed
      refine ⟨packed, ?_, fun word i => ?_⟩
      · rw [List.foldlM_cons, hplace]
        exact hpack
      · simp only [hpacked, hplaced, List.mem_cons, exists_eq_or_imp, or_assoc]
  obtain ⟨uid, hpack, huid⟩ := hfold (Vector.replicate 4 0)
  exact ⟨uid, hpack, fun word i => (huid word i).trans (or_iff_right not_holds_zero)⟩

/-- The order of the pieces does not matter. -/
theorem pack_eq_of_perm {other : List Piece} (hperm : other.Perm layout)
    (hfits : ∀ p ∈ layout, p.Fits)
    (hwithin : ∀ p ∈ layout, p.destShift.toNat + p.width.toNat ≤ 32) (fuses : Fuses) :
    pack fuses other = pack fuses layout := by
  obtain ⟨uid, hpack, huid⟩ := exists_pack hfits hwithin fuses
  obtain ⟨uid', hpack', huid'⟩ := exists_pack (fun p hp => hfits p (hperm.mem_iff.1 hp))
    (fun p hp => hwithin p (hperm.mem_iff.1 hp)) fuses
  rw [hpack, hpack']
  refine congrArg _ (eq_of_holds_iff fun word i => ?_)
  rw [huid, huid']
  exact exists_congr fun p => and_congr_left' hperm.mem_iff

/-- In a tiled layout the piece that takes a bit is the only one that does. -/
theorem Tiled.eq_of_covers (h : Tiled layout) {q : Piece} (hp : p ∈ layout) (hq : q ∈ layout)
    (hpbit : p.Covers word i) (hqbit : q.Covers word i) : p = q := by
  by_contra hne
  exact h.apart.forall hp hq hne word i hpbit hqbit

/-- **A tiled layout packs each fuse where it says, whatever the order.**  The fuses are
packed without halting.  The bits of the id that a piece takes are those of its fuse from
its lowest bit on, the bits that no piece takes are zero, and the pieces in any other
order make the same id. -/
theorem pack_of_tiled (h : Tiled layout) (fuses : Fuses) :
    ∃ uid, pack fuses layout = .ok uid ∧
      (∀ p ∈ layout, ∀ i < p.width.toNat,
        Holds uid p.word (p.destShift.toNat + i) ↔
          fuses.Holds p.source (p.sourceShift.toNat + i)) ∧
      (∀ word i, (∀ p ∈ layout, ¬p.Covers word i) → ¬Holds uid word i) ∧
      ∀ other : List Piece, other.Perm layout → pack fuses other = .ok uid := by
  obtain ⟨uid, hpack, huid⟩ := exists_pack h.fits h.within fuses
  refine ⟨uid, hpack, fun p hp i hi => ?_, fun word i hfree => ?_, fun other hperm => ?_⟩
  · have hcovers : p.Covers p.word (p.destShift.toNat + i) := ⟨rfl, by omega, by omega⟩
    have hplace : p.destShift.toNat + i - p.destShift.toNat = i := Nat.add_sub_cancel_left ..
    rw [huid]
    constructor
    · rintro ⟨q, hq, hqbit, hfuse⟩
      obtain rfl := h.eq_of_covers hp hq hcovers hqbit
      rwa [hplace] at hfuse
    · intro hfuse
      exact ⟨p, hp, hcovers, hplace.symm ▸ hfuse⟩
  · rw [huid]
    rintro ⟨p, hp, hcovers, -⟩
    exact hfree p hp hcovers
  · rw [pack_eq_of_perm hperm h.fits h.within, hpack]

/-- The hypothesis is satisfiable: a piece of a whole word, one of no bit amid it, and one
that reaches beyond the last bit of its fuse and leaves the bits below it free. -/
theorem pack_of_tiled_sample :
    let layout : List Piece :=
      [⟨1, .lotCode0, 0, 0, 32⟩, ⟨1, .xCoord, 3, 7, 0⟩, ⟨0, .lotCode0, 24, 20, 12⟩]
    let fuses : Fuses := ⟨0, 0, 0xdeadbeef, 0, 0, 0x1ff, 0, 0⟩
    Tiled layout ∧ ∃ uid, pack fuses layout = .ok uid ∧
      (∀ i < 32, Holds uid 1 i ↔ fuses.Holds .lotCode0 i) ∧
      Holds uid 0 21 ∧ ¬Holds uid 0 19 ∧ pack fuses layout.reverse = .ok uid := by
  intro layout fuses
  have htiled : Tiled layout := by decide
  obtain ⟨uid, hpack, htaken, hfree, hperm⟩ := pack_of_tiled htiled fuses
  refine ⟨htiled, uid, hpack, fun i hi => ?_, ?_, ?_, hperm _ layout.reverse_perm⟩
  · simpa only [UInt32.toNat_zero, Nat.zero_add] using
      htaken ⟨1, .lotCode0, 0, 0, 32⟩ (by decide) i hi
  · exact (htaken ⟨0, .lotCode0, 24, 20, 12⟩ (by decide) 1 (by decide)).2 (by decide)
  · refine hfree 0 19 fun p hp hbit => ?_
    obtain rfl | rfl | rfl : p = _ ∨ p = _ ∨ p = _ := by simpa [layout] using hp
    · exact absurd hbit.word (by decide)
    · exact absurd hbit.word (by decide)
    · exact absurd hbit.above (by decide)

/-- The layout of the chip's own id is tiled. -/
theorem tiled_pieces : Tiled pieces := by decide

end ChipId
end BootHandoff

/-
# A bank of bytes

A bank has a size and what was written to it; where nothing was written it has
its background.  It stands for a flash chip, erased or not, and for a range of
memory.
-/

import BootHandoff.Bytes.Basic

namespace BootHandoff
namespace Bench

/-- A bank of bytes. -/
structure Bank where
  size : Nat
  /-- What it holds where nothing was written. -/
  background : UInt8
  /-- What was written and where, the latest first. -/
  writes : List (Nat × Bytes)
  deriving Repr, Inhabited

namespace Bank

/-- A bank to which nothing was written. -/
def blank (size : Nat) (background : UInt8) : Bank := ⟨size, background, []⟩

/-- The view `view` of the bytes from `start` on, with `bs` written at
`place`. -/
def overlay (start : Nat) (view : Bytes) (place : Nat) (bs : Bytes) : Bytes :=
  if place + bs.length ≤ start ∨ start + view.length ≤ place then view
  else if place ≤ start then
    let bs := (bs.drop (start - place)).take view.length
    bs ++ view.drop bs.length
  else
    let skipped := place - start
    let bs := bs.take (view.length - skipped)
    view.take skipped ++ bs ++ view.drop (skipped + bs.length)

/-- The `len` bytes from `start` on. -/
def read (b : Bank) (start len : Nat) : Bytes :=
  b.writes.foldr (fun (place, bs) view => overlay start view place bs)
    (List.replicate len b.background)

/-- The bank with `bs` written at `place`. -/
def write (b : Bank) (place : Nat) (bs : Bytes) : Bank :=
  { b with writes := (place, bs) :: b.writes }

end Bank
end Bench
end BootHandoff

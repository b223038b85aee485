/-
# SHA-256

The hash function SHA-256 over byte strings.  A message is padded to
whole blocks of 64 bytes: a byte `80`, zeros, and its length in bits as a
big-endian number of 64 bits.  Each block changes eight words of state in 64
rounds; round `t` uses the constant `K t` and the word `W t`, of which the
first sixteen are the block and each further one comes from the sixteen before
it.

The check of the root key takes any hash; this is the one that it is run with.
-/

import BootHandoff.Bytes.Basic

namespace BootHandoff
namespace Digest
namespace Sha256

/-- The round constants: the fractional parts of the cube roots of the first
64 primes. -/
def constants : List UInt32 := [
  0x428a2f98, 0x71374491, 0xb5c0fbcf, 0xe9b5dba5, 0x3956c25b, 0x59f111f1, 0x923f82a4, 0xab1c5ed5,
  0xd807aa98, 0x12835b01, 0x243185be, 0x550c7dc3, 0x72be5d74, 0x80deb1fe, 0x9bdc06a7, 0xc19bf174,
  0xe49b69c1, 0xefbe4786, 0x0fc19dc6, 0x240ca1cc, 0x2de92c6f, 0x4a7484aa, 0x5cb0a9dc, 0x76f988da,
  0x983e5152, 0xa831c66d, 0xb00327c8, 0xbf597fc7, 0xc6e00bf3, 0xd5a79147, 0x06ca6351, 0x14292967,
  0x27b70a85, 0x2e1b2138, 0x4d2c6dfc, 0x53380d13, 0x650a7354, 0x766a0abb, 0x81c2c92e, 0x92722c85,
  0xa2bfe8a1, 0xa81a664b, 0xc24b8b70, 0xc76c51a3, 0xd192e819, 0xd6990624, 0xf40e3585, 0x106aa070,
  0x19a4c116, 0x1e376c08, 0x2748774c, 0x34b0bcb5, 0x391c0cb3, 0x4ed8aa4a, 0x5b9cca4f, 0x682e6ff3,
  0x748f82ee, 0x78a5636f, 0x84c87814, 0x8cc70208, 0x90befffa, 0xa4506ceb, 0xbef9a3f7, 0xc67178f2]

/-- The eight words of state. -/
structure State where
  a : UInt32
  b : UInt32
  c : UInt32
  d : UInt32
  e : UInt32
  f : UInt32
  g : UInt32
  h : UInt32
  deriving DecidableEq, Repr

/-- The state before the first block: the fractional parts of the square roots
of the first eight primes. -/
def State.initial : State :=
  ⟨0x6a09e667, 0xbb67ae85, 0x3c6ef372, 0xa54ff53a, 0x510e527f, 0x9b05688c, 0x1f83d9ab, 0x5be0cd19⟩

/-- The sum of two states, word by word. -/
def State.add (s t : State) : State :=
  ⟨s.a + t.a, s.b + t.b, s.c + t.c, s.d + t.d, s.e + t.e, s.f + t.f, s.g + t.g, s.h + t.h⟩

/-- A word turned right by `n` places, where `0 < n < 32`. -/
def rotr (x n : UInt32) : UInt32 := (x >>> n) ||| (x <<< (32 - n))

/-- One round, with its constant and its word. -/
def State.round (s : State) (k w : UInt32) : State :=
  let sum₁ := rotr s.e 6 ^^^ rotr s.e 11 ^^^ rotr s.e 25
  let choice := (s.e &&& s.f) ^^^ (~~~s.e &&& s.g)
  let t₁ := s.h + sum₁ + choice + k + w
  let sum₀ := rotr s.a 2 ^^^ rotr s.a 13 ^^^ rotr s.a 22
  let majority := (s.a &&& s.b) ^^^ (s.a &&& s.c) ^^^ (s.b &&& s.c)
  ⟨t₁ + (sum₀ + majority), s.a, s.b, s.c, s.d + t₁, s.e, s.f, s.g⟩

/-- The word that follows sixteen words of the schedule. -/
def nextWord (ws : List UInt32) : UInt32 :=
  let w₁₅ := ws.getD 1 0
  let w₂ := ws.getD 14 0
  let σ₀ := rotr w₁₅ 7 ^^^ rotr w₁₅ 18 ^^^ (w₁₅ >>> 3)
  let σ₁ := rotr w₂ 17 ^^^ rotr w₂ 19 ^^^ (w₂ >>> 10)
  ws.getD 0 0 + σ₀ + ws.getD 9 0 + σ₁

/-- The rounds for the remaining constants, with the sixteen words of the
schedule that come next. -/
def rounds : List UInt32 → List UInt32 → State → State
  | [], _, s => s
  | k :: ks, ws, s => rounds ks (ws.tail ++ [nextWord ws]) (s.round k (ws.headD 0))

/-- The big-endian words of a byte string; bytes that fill no word are left
out. -/
def words : Bytes → List UInt32
  | b₀ :: b₁ :: b₂ :: b₃ :: rest =>
    ((b₀.toUInt32 <<< 24) ||| (b₁.toUInt32 <<< 16) ||| (b₂.toUInt32 <<< 8) ||| b₃.toUInt32)
      :: words rest
  | _ => []

/-- The big-endian bytes of a word. -/
def wordBytes (w : UInt32) : Bytes :=
  [(w >>> 24).toUInt8, (w >>> 16).toUInt8, (w >>> 8).toUInt8, w.toUInt8]

/-- The state after one block of sixteen words. -/
def State.absorb (s : State) (block : List UInt32) : State := s.add (rounds constants block s)

/-- A message padded to whole blocks. -/
def pad (message : Bytes) : Bytes :=
  let zeros : Bytes := List.replicate ((119 - message.length % 64) % 64) 0
  let bits := UInt64.ofNat (8 * message.length)
  message ++ 0x80 :: zeros ++ wordBytes (bits >>> 32).toUInt32 ++ wordBytes bits.toUInt32

/-- The state after `n` more blocks. -/
def absorbBlocks : Nat → List UInt32 → State → State
  | 0, _, s => s
  | n + 1, ws, s => absorbBlocks n (ws.drop 16) (s.absorb (ws.take 16))

end Sha256

/-- The SHA-256 digest of a message. -/
def sha256 (message : Bytes) : Buffer 32 :=
  let ws := Sha256.words (Sha256.pad message)
  let s := Sha256.absorbBlocks (ws.length / 16) ws Sha256.State.initial
  ⟨Sha256.wordBytes s.a ++ Sha256.wordBytes s.b ++ Sha256.wordBytes s.c ++ Sha256.wordBytes s.d ++
    Sha256.wordBytes s.e ++ Sha256.wordBytes s.f ++ Sha256.wordBytes s.g ++ Sha256.wordBytes s.h,
    rfl⟩

/-- A published digest. -/
example : (sha256 (Bytes.ofText "abc")).bytes = [
    0xba, 0x78, 0x16, 0xbf, 0x8f, 0x01, 0xcf, 0xea,
    0x41, 0x41, 0x40, 0xde, 0x5d, 0xae, 0x22, 0x23,
    0xb0, 0x03, 0x61, 0xa3, 0x96, 0x17, 0x7a, 0x9c,
    0xb4, 0x10, 0xff, 0x61, 0xf2, 0x00, 0x15, 0xad] := by
  decide +kernel

end Digest
end BootHandoff

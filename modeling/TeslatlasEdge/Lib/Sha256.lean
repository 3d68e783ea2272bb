/-
Module: TeslatlasEdge.Lib.Sha256
Purpose: SHA-256 on byte lists, written over natural numbers so that closed digests evaluate in the
  kernel.
Trusted boundary: none
Main exports: Sha256.digest
-/
import Mathlib

namespace TeslatlasEdge.Lib.Sha256

/-- The eight working variables. -/
structure Words where
  a : Nat
  b : Nat
  c : Nat
  d : Nat
  e : Nat
  f : Nat
  g : Nat
  h : Nat

def word (n : Nat) : Nat := Nat.mod n 4294967296

/-- The exclusive or of three rotations of a 32-bit word to the right.  A word written twice holds
each of its rotations as a window. -/
def rotations (i j k x : Nat) : Nat :=
  let twice := Nat.mul x 4294967297
  word (Nat.xor (Nat.xor (Nat.shiftRight twice i) (Nat.shiftRight twice j))
    (Nat.shiftRight twice k))

/-- The exclusive or of two rotations and a shift to the right. -/
def rotationsShift (i j k x : Nat) : Nat :=
  let twice := Nat.mul x 4294967297
  Nat.xor (word (Nat.xor (Nat.shiftRight twice i) (Nat.shiftRight twice j))) (Nat.shiftRight x k)

def roundConstants : List Nat :=
  [0x428a2f98, 0x71374491, 0xb5c0fbcf, 0xe9b5dba5, 0x3956c25b, 0x59f111f1, 0x923f82a4, 0xab1c5ed5,
   0xd807aa98, 0x12835b01, 0x243185be, 0x550c7dc3, 0x72be5d74, 0x80deb1fe, 0x9bdc06a7, 0xc19bf174,
   0xe49b69c1, 0xefbe4786, 0x0fc19dc6, 0x240ca1cc, 0x2de92c6f, 0x4a7484aa, 0x5cb0a9dc, 0x76f988da,
   0x983e5152, 0xa831c66d, 0xb00327c8, 0xbf597fc7, 0xc6e00bf3, 0xd5a79147, 0x06ca6351, 0x14292967,
   0x27b70a85, 0x2e1b2138, 0x4d2c6dfc, 0x53380d13, 0x650a7354, 0x766a0abb, 0x81c2c92e, 0x92722c85,
   0xa2bfe8a1, 0xa81a664b, 0xc24b8b70, 0xc76c51a3, 0xd192e819, 0xd6990624, 0xf40e3585, 0x106aa070,
   0x19a4c116, 0x1e376c08, 0x2748774c, 0x34b0bcb5, 0x391c0cb3, 0x4ed8aa4a, 0x5b9cca4f, 0x682e6ff3,
   0x748f82ee, 0x78a5636f, 0x84c87814, 0x8cc70208, 0x90befffa, 0xa4506ceb, 0xbef9a3f7, 0xc67178f2]

def initial : Words :=
  ⟨0x6a09e667, 0xbb67ae85, 0x3c6ef372, 0xa54ff53a, 0x510e527f, 0x9b05688c, 0x1f83d9ab, 0x5be0cd19⟩

/-- One round; `scheduled` is the sum of the round constant and the message word. -/
def round (v : Words) (scheduled : Nat) : Words :=
  let choice := Nat.xor (Nat.land v.e v.f) (Nat.land (Nat.sub 4294967295 v.e) v.g)
  let majority :=
    Nat.xor (Nat.xor (Nat.land v.a v.b) (Nat.land v.a v.c)) (Nat.land v.b v.c)
  let first := Nat.add (Nat.add v.h (rotations 6 11 25 v.e)) (Nat.add choice scheduled)
  let second := Nat.add (rotations 2 13 22 v.a) majority
  ⟨word (Nat.add first second), v.a, v.b, v.c, word (Nat.add v.d first), v.e, v.f, v.g⟩

/-- A word of the message window, which holds sixteen words in one number, the oldest on top. -/
def windowWord (window i : Nat) : Nat := word (Nat.shiftRight window (Nat.sub 480 (Nat.mul 32 i)))

/-- The word the message schedule appends to a window. -/
def scheduledWord (window : Nat) : Nat :=
  word <| Nat.add
    (Nat.add (windowWord window 0) (rotationsShift 7 18 3 (windowWord window 1)))
    (Nat.add (windowWord window 9) (rotationsShift 17 19 10 (windowWord window 14)))

/-- The rounds of one block. -/
def rounds : List Nat → Nat → Words → Words
  | [], _, v => v
  | constant :: constants, window, v =>
      rounds constants
        (Nat.add (Nat.mod (Nat.shiftLeft window 32) (Nat.pow 2 512)) (scheduledWord window))
        (round v (Nat.add constant (windowWord window 0)))

def combine (v w : Words) : Words :=
  ⟨word (Nat.add v.a w.a), word (Nat.add v.b w.b), word (Nat.add v.c w.c), word (Nat.add v.d w.d),
    word (Nat.add v.e w.e), word (Nat.add v.f w.f), word (Nat.add v.g w.g), word (Nat.add v.h w.h)⟩

/-- All blocks of a message held in one number, the first block on top. -/
def blocks (message : Nat) : Nat → Words → Words
  | 0, v => v
  | rest + 1, v =>
      let block := Nat.mod (Nat.shiftRight message (Nat.mul 512 rest)) (Nat.pow 2 512)
      blocks message rest (combine v (rounds roundConstants block v))

def wordBytes (n : Nat) : List UInt8 :=
  [UInt8.ofNat (n / 16777216), UInt8.ofNat (n / 65536), UInt8.ofNat (n / 256), UInt8.ofNat n]

/-- How many zero bytes follow the mark after a message of a given length. -/
def zeroBytes (length : Nat) : Nat := (119 - length % 64) % 64

/-- The message with its mark, zeros and length in bits, as one number. -/
def padded (message : List UInt8) (length : Nat) : Nat :=
  let bytes := message.foldl (fun total byte => Nat.add (Nat.mul total 256) byte.toNat) 0
  Nat.add (Nat.shiftLeft (Nat.add (Nat.mul bytes 256) 128) (8 * (zeroBytes length + 8)))
    (8 * length)

def digest (message : List UInt8) : List UInt8 :=
  let length := message.length
  let v := blocks (padded message length) ((length + zeroBytes length + 9) / 64) initial
  [v.a, v.b, v.c, v.d, v.e, v.f, v.g, v.h].flatMap wordBytes

theorem length_digest (message : List UInt8) : (digest message).length = 32 := rfl

end TeslatlasEdge.Lib.Sha256

import Conveyor.Text.Utf8

/-!
The hash function SHA-256. A hasher takes its input in pieces of any length; it folds each full
block of 64 bytes into its words at once and keeps the rest.
-/

namespace Conveyor.Sha256

def roundConstants : List UInt32 := [
  0x428a2f98, 0x71374491, 0xb5c0fbcf, 0xe9b5dba5, 0x3956c25b, 0x59f111f1, 0x923f82a4, 0xab1c5ed5,
  0xd807aa98, 0x12835b01, 0x243185be, 0x550c7dc3, 0x72be5d74, 0x80deb1fe, 0x9bdc06a7, 0xc19bf174,
  0xe49b69c1, 0xefbe4786, 0x0fc19dc6, 0x240ca1cc, 0x2de92c6f, 0x4a7484aa, 0x5cb0a9dc, 0x76f988da,
  0x983e5152, 0xa831c66d, 0xb00327c8, 0xbf597fc7, 0xc6e00bf3, 0xd5a79147, 0x06ca6351, 0x14292967,
  0x27b70a85, 0x2e1b2138, 0x4d2c6dfc, 0x53380d13, 0x650a7354, 0x766a0abb, 0x81c2c92e, 0x92722c85,
  0xa2bfe8a1, 0xa81a664b, 0xc24b8b70, 0xc76c51a3, 0xd192e819, 0xd6990624, 0xf40e3585, 0x106aa070,
  0x19a4c116, 0x1e376c08, 0x2748774c, 0x34b0bcb5, 0x391c0cb3, 0x4ed8aa4a, 0x5b9cca4f, 0x682e6ff3,
  0x748f82ee, 0x78a5636f, 0x84c87814, 0x8cc70208, 0x90befffa, 0xa4506ceb, 0xbef9a3f7, 0xc67178f2]

structure Words where
  a : UInt32
  b : UInt32
  c : UInt32
  d : UInt32
  e : UInt32
  f : UInt32
  g : UInt32
  h : UInt32
  deriving DecidableEq, Repr

def Words.start : Words :=
  ⟨0x6a09e667, 0xbb67ae85, 0x3c6ef372, 0xa54ff53a, 0x510e527f, 0x9b05688c, 0x1f83d9ab, 0x5be0cd19⟩

def Words.toList (w : Words) : List UInt32 := [w.a, w.b, w.c, w.d, w.e, w.f, w.g, w.h]

def Words.add (v w : Words) : Words :=
  ⟨v.a + w.a, v.b + w.b, v.c + w.c, v.d + w.d, v.e + w.e, v.f + w.f, v.g + w.g, v.h + w.h⟩

def rotate (x n : UInt32) : UInt32 := (x >>> n) ||| (x <<< (32 - n))

/-- One round with a constant and a word of the message. -/
def round (w : Words) (k m : UInt32) : Words :=
  let s1 := rotate w.e 6 ^^^ rotate w.e 11 ^^^ rotate w.e 25
  let choice := (w.e &&& w.f) ^^^ (~~~w.e &&& w.g)
  let t1 := w.h + s1 + choice + k + m
  let s0 := rotate w.a 2 ^^^ rotate w.a 13 ^^^ rotate w.a 22
  let majority := (w.a &&& w.b) ^^^ (w.a &&& w.c) ^^^ (w.b &&& w.c)
  ⟨t1 + (s0 + majority), w.a, w.b, w.c, w.d + t1, w.e, w.f, w.g⟩

def nextWord (window : List UInt32) : UInt32 :=
  let word (i : Nat) : UInt32 := window.getD i 0
  let s0 := rotate (word 1) 7 ^^^ rotate (word 1) 18 ^^^ (word 1 >>> 3)
  let s1 := rotate (word 14) 17 ^^^ rotate (word 14) 19 ^^^ (word 14 >>> 10)
  word 0 + s0 + word 9 + s1

/-- The rounds over a message schedule, given its next sixteen words. -/
def rounds (w : Words) (window : List UInt32) : List UInt32 → Words
  | [] => w
  | k :: ks => rounds (round w k (window.headD 0)) (window.tail ++ [nextWord window]) ks

/-- Four bytes as a word, high byte first. -/
def wordsOfBytes : Bytes → List UInt32
  | a :: b :: c :: d :: rest =>
    ((a.toUInt32 <<< 24) ||| (b.toUInt32 <<< 16) ||| (c.toUInt32 <<< 8) ||| d.toUInt32) ::
      wordsOfBytes rest
  | _ => []

def bytesOfWord (x : UInt32) : Bytes :=
  [(x >>> 24).toUInt8, (x >>> 16).toUInt8, (x >>> 8).toUInt8, x.toUInt8]

def compress (w : Words) (block : Bytes) : Words :=
  w.add (rounds w (wordsOfBytes block) roundConstants)

def blockSize : Nat := 64

/-- Folds the full blocks of some bytes into the words; the second part is the rest. -/
def absorb (w : Words) (bytes : Bytes) : Words × Bytes :=
  if blockSize ≤ bytes.length then absorb (compress w (bytes.take blockSize)) (bytes.drop blockSize)
  else (w, bytes)
termination_by bytes.length
decreasing_by simp only [List.length_drop, blockSize] at *; omega

/-- A hash under way: its words, the bytes that do not fill a block yet, and the number of all
bytes. -/
structure Hasher where
  words : Words := .start
  pending : Bytes := []
  count : Nat := 0
  deriving DecidableEq, Repr

def Hasher.feed (s : Hasher) (piece : Bytes) : Hasher :=
  let (words, pending) := absorb s.words (s.pending ++ piece)
  ⟨words, pending, s.count + piece.length⟩

/-- What follows the last byte of an input of `count` bytes: a one bit, zeros up to a block less the
length, and the length in bits. -/
def padding (count : Nat) : Bytes :=
  let zeros := (2 * blockSize - 9 - count % blockSize) % blockSize
  let bits : UInt64 := (8 * count).toUInt64
  (0x80 : UInt8) :: List.replicate zeros 0 ++ bytesOfWord (bits >>> 32).toUInt32 ++
    bytesOfWord bits.toUInt32

def Hasher.finish (s : Hasher) : Bytes :=
  (absorb s.words (s.pending ++ padding s.count)).1.toList.flatMap bytesOfWord

/-- The hash of some bytes: all blocks of the padded input folded in order. -/
def digest (bytes : Bytes) : Bytes :=
  (absorb .start (bytes ++ padding bytes.length)).1.toList.flatMap bytesOfWord

end Conveyor.Sha256

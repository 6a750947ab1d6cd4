import Conveyor.Archive.Crc32
import Conveyor.Archive.Inflate
import Conveyor.Files.Fault
import Conveyor.Number.Power

/-!
Streams of gzip members. A stream has bytes that can be read, and an ending that a reader meets when
it asks for more than those: the end, or a fault.
-/

namespace Conveyor

open Conveyor.Inflate

/-- What a reader meets behind the readable bytes of a stream. -/
inductive StreamEnding
  | finished
  | malformed
  | cutShort
  | damaged (d : Damage)
  deriving DecidableEq, Repr

def StreamEnding.ofStop : Stop → StreamEnding
  | .cutShort => .cutShort
  | .damaged d => .damaged d

/-- Bytes that can be read, and what comes then. -/
structure Stream where
  readable : Array UInt8
  ending : StreamEnding

namespace Gzip

def takeExactly (n : Nat) (bytes : Bytes) : Except StreamEnding (Bytes × Bytes) :=
  if bytes.length < n then .error .cutShort else .ok (bytes.take n, bytes.drop n)

def littleEndian (bytes : Bytes) : Nat := bytes.foldr (fun b n => b.toNat + 256 * n) 0

/-- Drops a text and the zero byte after it. -/
def dropText (bytes : Bytes) : Bytes := (bytes.dropWhile (· ≠ 0)).drop 1

def dropHeader (bytes : Bytes) : Except StreamEnding Bytes := do
  if bytes.take 2 ≠ [0x1f, 0x8b] then throw .malformed
  let (header, bytes) ← takeExactly 8 (bytes.drop 2)
  let flags := (header.getD 1 0).toNat
  if header.headD 0 ≠ 8 then throw .malformed
  let bytes ← if flags.testBit 2 then do
      let (size, bytes) ← takeExactly 2 bytes
      let (_, bytes) ← takeExactly (littleEndian size) bytes
      pure bytes
    else pure bytes
  let bytes := if flags.testBit 3 then dropText bytes else bytes
  let bytes := if flags.testBit 4 then dropText bytes else bytes
  if flags.testBit 1 then return (← takeExactly 2 bytes).2 else return bytes

/-- The bytes after the trailer of a member and the zero bytes that may follow. -/
def dropTrailer (out : Array UInt8) (bytes : Bytes) : Except StreamEnding Bytes := do
  let (trailer, bytes) ← takeExactly 8 bytes
  if littleEndian (trailer.take 4) ≠ (Crc32.checksum out.toList).toNat then throw .malformed
  if littleEndian (trailer.drop 4) ≠ out.size % Number.twoTo 32 then throw .malformed
  return bytes.dropWhile (· = 0)

/-- How many bytes a reader takes at once; what a damaged stream holds of the last piece is lost. -/
def pieceSize : Nat := 8192

def readablePart (out : Array UInt8) : Stop → Array UInt8
  | .cutShort => out
  | .damaged _ => out.extract 0 (out.size / pieceSize * pieceSize)

/-- Reads members one after the other; each has at least one byte. -/
def readMembers : Nat → Bytes → Array UInt8 → Stream
  | 0, _, out => ⟨out, .finished⟩
  | fuel + 1, bytes, out =>
    if bytes.isEmpty then ⟨out, .finished⟩
    else match dropHeader bytes with
      | .error ending => ⟨out, ending⟩
      | .ok body =>
        match inflate body with
        | (member, .error stop) => ⟨out ++ readablePart member stop, .ofStop stop⟩
        | (member, .ok left) =>
          match dropTrailer member (body.drop (body.length - left)) with
          | .error ending => ⟨out ++ member, ending⟩
          | .ok rest => readMembers fuel rest (out ++ member)

def stream (bytes : Bytes) : Stream := readMembers bytes.length bytes #[]

end Gzip

end Conveyor

/-!
Bytes and texts. A text is written in UTF-8; reading is strict, or puts the replacement character
for each maximal part of a broken sequence.
-/

namespace Conveyor

/-- The content of a file. -/
abbrev Bytes := List UInt8

namespace Text

def encode (s : String) : Bytes := s.toUTF8.toList

/-- How many bytes follow the lead byte `b`, and the range in which the first of them lies. -/
def sequenceShape (b : UInt8) : Option (Nat × UInt8 × UInt8) :=
  if b < 0xc2 then none
  else if b < 0xe0 then some (1, 0x80, 0xbf)
  else if b == 0xe0 then some (2, 0xa0, 0xbf)
  else if b == 0xed then some (2, 0x80, 0x9f)
  else if b < 0xf0 then some (2, 0x80, 0xbf)
  else if b == 0xf0 then some (3, 0x90, 0xbf)
  else if b < 0xf4 then some (3, 0x80, 0xbf)
  else if b == 0xf4 then some (3, 0x80, 0x8f)
  else none

/-- The number of bytes of `rest` that continue a sequence which still needs `need` of them. -/
def continued : Nat → UInt8 → UInt8 → Bytes → Nat
  | need + 1, low, high, b :: rest =>
    if low ≤ b && b ≤ high then continued need 0x80 0xbf rest + 1 else 0
  | _, _, _, _ => 0

/-- The code point whose lead byte `b` is followed by the bytes `tail`. -/
def codePoint (b : UInt8) (tail : Bytes) : Nat :=
  let lead := match tail.length with
    | 1 => b.toNat % 0x20
    | 2 => b.toNat % 0x10
    | _ => b.toNat % 0x08
  tail.foldl (fun n t => n * 0x40 + t.toNat % 0x40) lead

/-- Reads one character after its lead byte: the character, unless the sequence is broken, and the
number of bytes that it takes from `rest`. -/
def readChar (b : UInt8) (rest : Bytes) : Option Char × Nat :=
  if b < 0x80 then (some (Char.ofNat b.toNat), 0)
  else match sequenceShape b with
    | none => (none, 0)
    | some (need, low, high) =>
      let n := continued need low high rest
      if n = need then (some (Char.ofNat (codePoint b (rest.take n))), n) else (none, n)

/-- Reads characters, each as `none` where a sequence is broken. -/
def readChars : Bytes → List (Option Char)
  | [] => []
  | b :: rest =>
    let step := readChar b rest
    step.1 :: readChars (rest.drop step.2)
termination_by bs => bs.length
decreasing_by simp only [List.length_drop, List.length_cons]; omega

def decode? (bs : Bytes) : Option String :=
  ((readChars bs).mapM id).map String.ofList

/-- The text of any bytes, with U+FFFD for what is broken. -/
def decodeLossy (bs : Bytes) : String :=
  String.ofList ((readChars bs).map (·.getD '\ufffd'))

end Text

end Conveyor

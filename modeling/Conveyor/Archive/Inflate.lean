import Conveyor.Text.Utf8

/-!
Decompression of raw deflate streams. What was decompressed before a fault is kept, since a reader
may not need what comes after it.
-/

namespace Conveyor.Inflate

def bitsOf (bytes : Bytes) : List Bool :=
  bytes.flatMap fun b => (List.range 8).map b.toNat.testBit

inductive Damage
  | blockType
  | storedLengths
  | tooManySymbols
  | codeLengthsSet
  | bitLengthRepeat
  | missingEndOfBlock
  | literalLengthsSet
  | distancesSet
  | literalLengthCode
  | distanceCode
  | distanceTooFar
  deriving DecidableEq, Repr

def Damage.text : Damage → String
  | .blockType => "invalid block type"
  | .storedLengths => "invalid stored block lengths"
  | .tooManySymbols => "too many length or distance symbols"
  | .codeLengthsSet => "invalid code lengths set"
  | .bitLengthRepeat => "invalid bit length repeat"
  | .missingEndOfBlock => "invalid code -- missing end-of-block"
  | .literalLengthsSet => "invalid literal/lengths set"
  | .distancesSet => "invalid distances set"
  | .literalLengthCode => "invalid literal/length code"
  | .distanceCode => "invalid distance code"
  | .distanceTooFar => "invalid distance too far back"

inductive Stop
  | cutShort
  | damaged (d : Damage)
  deriving DecidableEq, Repr

abbrev Bits := List Bool

def readNumber : Nat → Bits → Except Stop (Nat × Bits)
  | 0, bits => .ok (0, bits)
  | _ + 1, [] => .error .cutShort
  | n + 1, b :: bits => do
    let (high, rest) ← readNumber n bits
    return (2 * high + b.toNat, rest)

/-- A prefix code: how many symbols have each length from 1 on, and the symbols by length. -/
structure Code where
  counts : List Nat
  symbols : Array Nat

/-- The canonical code of symbols whose lengths are listed; length zero means no code word. -/
def Code.ofLengths (lengths : List Nat) : Code :=
  let used := (List.range (lengths.foldl max 0)).map (· + 1)
  { counts := used.map lengths.count
    symbols := (used.flatMap fun length =>
      lengths.zipIdx.filterMap fun (l, s) => if l = length then some s else none).toArray }

/-- Unused code words of the longest length; less than zero if there are too many symbols. -/
def Code.room (c : Code) : Int :=
  c.counts.foldl (fun (left : Int) (n : Nat) => 2 * left - (n : Int)) 1

/-- All words of the code are used, or it has no symbol. -/
def Code.isComplete (c : Code) : Bool := c.room = 0 || c.symbols.isEmpty

/-- A code that may stand alone: complete, or a single symbol of length one. -/
def Code.isUsable (c : Code) : Bool := c.isComplete || (0 ≤ c.room && c.counts.tail.all (· = 0))

/-- Reads one symbol; `first` and `index` tell the first word of the current length and its place
among the symbols. A word that no symbol has is none. -/
def readSymbol (symbols : Array Nat) : List Nat → Nat → Nat → Nat → Bits →
    Except Stop (Option Nat × Bits)
  | [], _, _, _, bits => .ok (none, bits)
  | _ :: _, _, _, _, [] => .error .cutShort
  | count :: counts, word, first, index, b :: bits =>
    let word := 2 * word + b.toNat
    let first := 2 * first
    if word < first + count then .ok (symbols[index + (word - first)]?, bits)
    else readSymbol symbols counts word (first + count) (index + count) bits

def Code.read (c : Code) (bits : Bits) (d : Damage) : Except Stop (Nat × Bits) := do
  match ← readSymbol c.symbols c.counts 0 0 0 bits with
  | (some s, rest) => return (s, rest)
  | (none, _) => throw (.damaged d)

/-- Base and number of extra bits for each length symbol from 257 on. -/
def lengthTable : List (Nat × Nat) := [
  (3, 0), (4, 0), (5, 0), (6, 0), (7, 0), (8, 0), (9, 0), (10, 0), (11, 1), (13, 1), (15, 1),
  (17, 1), (19, 2), (23, 2), (27, 2), (31, 2), (35, 3), (43, 3), (51, 3), (59, 3), (67, 4), (83, 4),
  (99, 4), (115, 4), (131, 5), (163, 5), (195, 5), (227, 5), (258, 0)]

/-- Base and number of extra bits for each distance symbol. -/
def distanceTable : List (Nat × Nat) := [
  (1, 0), (2, 0), (3, 0), (4, 0), (5, 1), (7, 1), (9, 2), (13, 2), (17, 3), (25, 3), (33, 4),
  (49, 4), (65, 5), (97, 5), (129, 6), (193, 6), (257, 7), (385, 7), (513, 8), (769, 8), (1025, 9),
  (1537, 9), (2049, 10), (3073, 10), (4097, 11), (6145, 11), (8193, 12), (12289, 12), (16385, 13),
  (24577, 13)]

def readFromTable (table : List (Nat × Nat)) (symbol : Nat) (d : Damage) (bits : Bits) :
    Except Stop (Nat × Bits) := do
  match table[symbol]? with
  | none => throw (.damaged d)
  | some (base, extra) =>
    let (n, rest) ← readNumber extra bits
    return (base + n, rest)

/-- Repeats `length` bytes from `distance` bytes back. -/
def copyBack (out : Array UInt8) (distance : Nat) : Nat → Array UInt8
  | 0 => out
  | length + 1 => copyBack (out.push (out.getD (out.size - distance) 0)) distance length

/-- Reads a length and a distance after a length symbol. -/
def readPair (distances : Code) (symbol : Nat) (bits : Bits) :
    Except Stop ((Nat × Nat) × Bits) := do
  let (length, bits) ← readFromTable lengthTable (symbol - 257) .literalLengthCode bits
  let (symbol, bits) ← distances.read bits .distanceCode
  let (distance, bits) ← readFromTable distanceTable symbol .distanceCode bits
  return ((length, distance), bits)

/-- Decompresses the symbols of a block up to its end. Each symbol takes at least one bit, so that
as many symbols as bits are enough. -/
def readSymbols (literals distances : Code) : Nat → Bits → Array UInt8 →
    Array UInt8 × Except Stop Bits
  | 0, _, out => (out, .error .cutShort)
  | fuel + 1, bits, out =>
    match literals.read bits .literalLengthCode with
    | .error stop => (out, .error stop)
    | .ok (symbol, bits) =>
      if symbol < 256 then readSymbols literals distances fuel bits (out.push symbol.toUInt8)
      else if symbol = 256 then (out, .ok bits)
      else match readPair distances symbol bits with
        | .error stop => (out, .error stop)
        | .ok ((length, distance), bits) =>
          if out.size < distance then (out, .error (.damaged .distanceTooFar))
          else readSymbols literals distances fuel bits (copyBack out distance length)

/-- The codes of blocks that bring none. -/
def fixedCodes : Code × Code :=
  (.ofLengths (List.replicate 144 8 ++ List.replicate 112 9 ++ List.replicate 24 7 ++
      List.replicate 8 8),
    .ofLengths (List.replicate 32 5))

/-- The order in which the lengths of the code for code lengths come. -/
def lengthOrder : List Nat := [16, 17, 18, 0, 8, 7, 9, 6, 10, 5, 11, 4, 12, 3, 13, 2, 14, 1, 15]

def readNumbers (width : Nat) : Nat → Bits → Except Stop (List Nat × Bits)
  | 0, bits => .ok ([], bits)
  | n + 1, bits => do
    let (x, bits) ← readNumber width bits
    let (xs, bits) ← readNumbers width n bits
    return (x :: xs, bits)

/-- What a symbol of the code for code lengths adds to the lengths so far, last length first. -/
def repeatLengths (lengths : List Nat) (symbol : Nat) (bits : Bits) :
    Except Stop (List Nat × Bits) := do
  match symbol with
  | 16 =>
    let (n, bits) ← readNumber 2 bits
    match lengths with
    | [] => throw (.damaged .bitLengthRepeat)
    | l :: _ => return (List.replicate (3 + n) l, bits)
  | 17 =>
    let (n, bits) ← readNumber 3 bits
    return (List.replicate (3 + n) 0, bits)
  | 18 =>
    let (n, bits) ← readNumber 7 bits
    return (List.replicate (11 + n) 0, bits)
  | l => return ([l], bits)

/-- Reads `need` code lengths, with those read before in `lengths`, last length first. Each symbol
brings at least one. -/
def readLengths (code : Code) : Nat → Nat → List Nat → Bits → Except Stop (List Nat × Bits)
  | 0, _, lengths, bits => .ok (lengths.reverse, bits)
  | fuel + 1, need, lengths, bits => do
    if need ≤ lengths.length then return (lengths.reverse, bits)
    let (symbol, bits) ← code.read bits .codeLengthsSet
    let (more, bits) ← repeatLengths lengths symbol bits
    if need < lengths.length + more.length then throw (.damaged .bitLengthRepeat)
    readLengths code fuel need (more ++ lengths) bits

def lengthCode (given : List Nat) : Code :=
  let lengths := lengthOrder.zip given
  .ofLengths ((List.range 19).map fun s => (lengths.lookup s).getD 0)

def readCodes (bits : Bits) : Except Stop ((Code × Code) × Bits) := do
  let (literals, bits) ← readNumber 5 bits
  let (distances, bits) ← readNumber 5 bits
  let (given, bits) ← readNumber 4 bits
  if 286 < literals + 257 ∨ 30 < distances + 1 then throw (.damaged .tooManySymbols)
  let (given, bits) ← readNumbers 3 (given + 4) bits
  let code := lengthCode given
  if !code.isComplete then throw (.damaged .codeLengthsSet)
  if code.symbols.isEmpty then throw (.damaged .missingEndOfBlock)
  let need := literals + 257 + (distances + 1)
  let (lengths, bits) ← readLengths code need need [] bits
  if lengths.getD 256 0 = 0 then throw (.damaged .missingEndOfBlock)
  let literalCode := Code.ofLengths (lengths.take (literals + 257))
  if !literalCode.isUsable then throw (.damaged .literalLengthsSet)
  let distanceCode := Code.ofLengths (lengths.drop (literals + 257))
  if !distanceCode.isUsable then throw (.damaged .distancesSet)
  return ((literalCode, distanceCode), bits)

def readStored : Nat → Bits → Array UInt8 → Array UInt8 × Except Stop Bits
  | 0, bits, out => (out, .ok bits)
  | n + 1, bits, out =>
    match readNumber 8 bits with
    | .error stop => (out, .error stop)
    | .ok (b, bits) => readStored n bits (out.push b.toUInt8)

/-- Drops the bits before the next byte. -/
def alignBits (bits : Bits) : Bits := bits.drop (bits.length % 8)

/-- Reads the two lengths of a stored block, which are each other's complement. -/
def readStoredLength (bits : Bits) : Except Stop (Nat × Bits) := do
  let (length, bits) ← readNumber 16 (alignBits bits)
  let (complement, bits) ← readNumber 16 bits
  if length + complement ≠ 0xffff then throw (.damaged .storedLengths)
  return (length, bits)

def readBlock (type : Nat) (bits : Bits) (out : Array UInt8) : Array UInt8 × Except Stop Bits :=
  match type with
  | 0 =>
    match readStoredLength bits with
    | .error stop => (out, .error stop)
    | .ok (length, bits) => readStored length bits out
  | 1 => readSymbols fixedCodes.1 fixedCodes.2 bits.length bits out
  | 2 =>
    match readCodes bits with
    | .error stop => (out, .error stop)
    | .ok ((literals, distances), bits) => readSymbols literals distances bits.length bits out
  | _ => (out, .error (.damaged .blockType))

/-- Decompresses blocks up to the last one. Each block takes at least one bit. -/
def readBlocks : Nat → Bits → Array UInt8 → Array UInt8 × Except Stop Bits
  | 0, _, out => (out, .error .cutShort)
  | fuel + 1, bits, out =>
    match (do let (final, bits) ← readNumber 1 bits; let (type, bits) ← readNumber 2 bits
              return (final, type, bits) : Except Stop (Nat × Nat × Bits)) with
    | .error stop => (out, .error stop)
    | .ok (final, type, bits) =>
      match readBlock type bits out with
      | (out, .error stop) => (out, .error stop)
      | (out, .ok bits) => if final = 1 then (out, .ok bits) else readBlocks fuel bits out

/-- The output of a stream up to its end or to a fault, and how many bytes of the input come after
the stream. -/
def inflate (bytes : Bytes) : Array UInt8 × Except Stop Nat :=
  let bits := bitsOf bytes
  match readBlocks bits.length bits #[] with
  | (out, .ok rest) => (out, .ok (rest.length / 8))
  | (out, .error stop) => (out, .error stop)

end Conveyor.Inflate

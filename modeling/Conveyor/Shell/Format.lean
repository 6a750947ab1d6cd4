import Conveyor.Number.Decimal
import Conveyor.Shell.Arithmetic
import Conveyor.Text.Utf8

/-!
What the commands that print make of their words: escapes that start with a backslash, and formats.
-/

namespace Conveyor.Shell

structure Output where
  bytes : Bytes
  stops : Bool := false

def octalValue (ds : List Char) : Nat := Number.ofDigits 8 (ds.map fun d => d.toNat - 0x30)

def decimalValue (ds : List Char) : Nat :=
  Number.ofDigits 10 (ds.map fun d => d.toNat - 0x30)

def isOctal (c : Char) : Bool := '0' ≤ c && c ≤ '7'

def letterEscapes : List (Char × UInt8) := [
  ('a', 7), ('b', 8), ('e', 27), ('f', 12), ('n', 10), ('r', 13), ('t', 9), ('v', 11), ('\\', 0x5c)]

/-- The bytes of a text with escapes. In an `argument`, a zero may stand before the three digits of a
number, and an escape may end the printing. -/
def unescape (argument : Bool) : Nat → List Char → Output
  | 0, _ => ⟨[], false⟩
  | _, [] => ⟨[], false⟩
  | fuel + 1, c :: rest =>
    let after (bytes : Bytes) (rest : List Char) : Output :=
      let more := unescape argument fuel rest
      ⟨bytes ++ more.bytes, more.stops⟩
    if c ≠ '\\' then after (Text.encode (String.singleton c)) rest
    else match rest with
      | [] => ⟨[0x5c], false⟩
      | d :: more =>
        if d = 'c' && argument then ⟨[], true⟩
        else match letterEscapes.lookup d with
          | some b => after [b] more
          | none =>
            if argument && d = '0' then
              let ds := (more.take 3).takeWhile isOctal
              after [(octalValue ds).toUInt8] (more.drop ds.length)
            else if isOctal d then
              let ds := (rest.take 3).takeWhile isOctal
              after [(octalValue ds).toUInt8] (rest.drop ds.length)
            else after (0x5c :: Text.encode (String.singleton d)) more

def unescapeText (argument : Bool) (s : String) : Output :=
  unescape argument (s.length + 1) s.toList

def echoed (words : List String) : Bytes :=
  let (quiet, words) := match words with
    | "-n" :: rest => (true, rest)
    | ws => (false, ws)
  let out := unescapeText true (" ".intercalate words)
  if quiet || out.stops then out.bytes else out.bytes ++ [0x0a]

/-- A conversion of a format: flags, width, precision and kind. -/
structure Conversion where
  left : Bool := false
  zeros : Bool := false
  plus : Bool := false
  space : Bool := false
  alternative : Bool := false
  width : Nat := 0
  precision : Option Nat := none
  kind : Char

/-- Fills bytes up to the width of a conversion. -/
def Conversion.pad (c : Conversion) (b : Bytes) : Bytes :=
  let fill := List.replicate (c.width - b.length) (0x20 : UInt8)
  if c.left then b ++ fill else fill ++ b

/-- The digits of a number in a base, in lower or upper case. -/
def digitsIn (base n : Nat) (upper : Bool) : List Char :=
  let ds := Nat.toDigits base n
  if upper then ds.map Char.toUpper else ds

def Conversion.number (c : Conversion) (i : Int) : Bytes :=
  let unsigned := "oxXu".toList.contains c.kind
  let magnitude := if unsigned then (i % Number.twoTo 64).toNat else i.natAbs
  let base := match c.kind with
    | 'o' => 8
    | 'x' | 'X' => 16
    | _ => 10
  let ds := digitsIn base magnitude (c.kind = 'X')
  let ds := List.replicate (c.precision.getD 1 - ds.length) '0' ++ ds
  let mark := if c.alternative && magnitude ≠ 0 then
      match c.kind with
      | 'o' => ['0']
      | 'x' => ['0', 'x']
      | 'X' => ['0', 'X']
      | _ => []
    else []
  let sign := if unsigned then [] else if i < 0 then ['-'] else if c.plus then ['+']
    else if c.space then [' '] else []
  let lead := sign ++ mark
  let ds := if c.zeros && !c.left && c.precision.isNone then
      List.replicate (c.width - lead.length - ds.length) '0' ++ ds
    else ds
  c.pad (Text.encode (String.ofList (lead ++ ds)))

def Conversion.fraction (c : Conversion) (x : Number.Binary64) : Bytes :=
  let places := c.precision.getD 6
  let digits (n d : Nat) : List Char :=
    let all := Nat.toDigits 10 (Number.Binary64.roundHalfEven (n * Number.tenTo places) d)
    let all := List.replicate (places + 1 - all.length) '0' ++ all
    let whole := all.take (all.length - places)
    if places = 0 then whole else whole ++ '.' :: all.drop (all.length - places)
  let magnitude := match x.ratio? with
    | some (n, d) => digits n.natAbs d
    | none => (Number.Binary64.text x).toList.filter (· ≠ '-')
  let sign := if x.isNegative then ['-'] else if c.plus then ['+'] else if c.space then [' ']
    else []
  let zeros := if c.zeros && !c.left then
      List.replicate (c.width - sign.length - magnitude.length) '0' else []
  c.pad (Text.encode (String.ofList (sign ++ zeros ++ magnitude)))

/-- The fraction that an argument spells, and what is wrong with it. -/
def argumentFraction (s : String) : Number.Binary64 × List String :=
  if s.isEmpty then (.zero false, [])
  else match Number.parseFloat s with
    | some x => (x, [])
    | none => (.zero false, [s ++ ": expected numeric value"])

/-- The number that an argument spells, and what is wrong with it. -/
def argumentNumber (s : String) : Int × List String :=
  match s.toList with
  | [] => (0, [])
  | '\x27' :: c :: _ | '\x22' :: c :: _ => (c.toNat, [])
  | cs =>
    let (negative, ds) := Number.splitSign (Number.trimNumber (String.ofList cs))
    let digits := Arithmetic.leadingNumber ds
    let n := (Arithmetic.number? digits).getD 0
    let flaw := if digits.isEmpty then [s ++ ": expected numeric value"]
      else if digits.length < ds.length then [s ++ ": not completely converted"]
      else if (decimalValue digits) ≥ Number.twoTo 63 && digits.head? ≠ some '0' then
        [s ++ ": Numerical result out of range"]
      else []
    (if negative then -n else n, flaw)

def Conversion.text (c : Conversion) (b : Bytes) : Bytes :=
  c.pad (match c.precision with
    | some n => b.take n
    | none => b)

inductive Piece
  | bytes (b : Bytes)
  | conversion (c : Conversion)
  | stop

def readFlags : Nat → Conversion → List Char → Conversion × List Char
  | 0, c, cs => (c, cs)
  | fuel + 1, c, cs =>
    match cs with
    | '-' :: rest => readFlags fuel { c with left := true } rest
    | '0' :: rest => readFlags fuel { c with zeros := true } rest
    | '+' :: rest => readFlags fuel { c with plus := true } rest
    | ' ' :: rest => readFlags fuel { c with space := true } rest
    | '#' :: rest => readFlags fuel { c with alternative := true } rest
    | _ => (c, cs)

def readConversion (cs : List Char) : Option (Conversion × List Char) :=
  let (c, cs) := readFlags (cs.length + 1) { kind := 's' } cs
  let width := cs.takeWhile Char.isDigit
  let cs := cs.drop width.length
  let c := { c with width := decimalValue width }
  let (c, cs) := match cs with
    | '.' :: rest =>
      let ds := rest.takeWhile Char.isDigit
      ({ c with precision := some (decimalValue ds) }, rest.drop ds.length)
    | _ => (c, cs)
  match cs with
  | k :: rest =>
    if "sbcdiouxXfF".toList.contains k then some ({ c with kind := k }, rest) else none
  | [] => none

/-- The pieces of a format; nothing at a conversion that does not exist. -/
def piecesOf : Nat → List Char → Option (List Piece)
  | 0, _ => some []
  | _, [] => some []
  | fuel + 1, c :: rest =>
    if c = '%' then
      match rest with
      | '%' :: rest => (piecesOf fuel rest).map (.bytes [0x25] :: ·)
      | _ => (readConversion rest).bind fun (conv, rest) =>
        (piecesOf fuel rest).map (.conversion conv :: ·)
    else
      let plain := if c = '\\' then []
        else (c :: rest).takeWhile fun d => d ≠ '%' && d ≠ '\\'
      if c = '\\' then
        let taken := match rest with
          | d :: more =>
            if isOctal d then 1 + ((d :: more).take 3 |>.takeWhile isOctal).length else 2
          | [] => 1
        let out := unescape false 5 ((c :: rest).take taken)
        if out.stops then some [.stop]
        else (piecesOf fuel ((c :: rest).drop taken)).map (.bytes out.bytes :: ·)
      else
        (piecesOf fuel ((c :: rest).drop plain.length)).map
          (.bytes (Text.encode (String.ofList plain)) :: ·)

/-- What a format prints: the bytes, and what is wrong with the arguments. -/
structure Formatted where
  bytes : Bytes := []
  complaints : List String := []
  stops : Bool := false

/-- One pass over a format: what it prints, and the arguments left. -/
def formatOnce : List Piece → List String → Formatted × List String
  | [], args => ({}, args)
  | .stop :: _, args => ({ stops := true }, args)
  | .bytes b :: rest, args =>
    let (f, args) := formatOnce rest args
    ({ f with bytes := b ++ f.bytes }, args)
  | .conversion c :: rest, args =>
    let arg := args.headD ""
    let (bytes, bad, stops) : Bytes × List String × Bool := match c.kind with
      | 's' => (c.text (Text.encode arg), [], false)
      | 'b' =>
        let out := unescapeText true arg
        (c.text out.bytes, [], out.stops)
      | 'c' => (c.text ((Text.encode arg).take 1), [], false)
      | 'f' | 'F' =>
        let (x, flaws) := argumentFraction arg
        (c.fraction x, flaws, false)
      | _ =>
        let (n, flaws) := argumentNumber arg
        (c.number n, flaws, false)
    if stops then ({ bytes, stops }, args.drop 1)
    else
      let (f, args) := formatOnce rest (args.drop 1)
      ({ f with bytes := bytes ++ f.bytes, complaints := bad ++ f.complaints }, args)

/-- A format is used again while it takes arguments and some are left. -/
def formatAll (pieces : List Piece) : Nat → List String → Formatted
  | 0, _ => {}
  | fuel + 1, args =>
    let (f, left) := formatOnce pieces args
    if f.stops || left.isEmpty || left.length = args.length then f
    else
      let more := formatAll pieces fuel left
      ⟨f.bytes ++ more.bytes, f.complaints ++ more.complaints, more.stops⟩

/-- What a format prints for its arguments; nothing if the format has no meaning. -/
def formatted? (format : String) (args : List String) : Option Formatted :=
  (piecesOf (format.length + 1) format.toList).map fun pieces =>
    formatAll pieces (args.length + 1) args

end Conveyor.Shell

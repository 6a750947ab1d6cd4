import Conveyor.Number.Decimal
import Conveyor.Text.Lowercase
import Conveyor.Text.Quoted
import Conveyor.Value.Basic
import Conveyor.Yaml.Node

/-!
The value that a text has under a tag. A text that merely looks like a value of its tag may still
name none: the thirtieth of February, or digits that the base does not have.
-/

namespace Conveyor.Yaml

open Conveyor.Number Conveyor.Text

namespace ScalarValue

def dropGaps (cs : List Char) : List Char := cs.filter (· != '_')

/-- Digits of a base, of which there is at least one. -/
def inBase (base : Nat) (cs : List Char) : Except Fault Nat :=
  match cs.mapM fun c => (hexValue? c).filter (· < base) with
  | some (d :: ds) => .ok (ofDigits base (d :: ds))
  | _ => .error (.value .malformedNumber)

/-- A whole number in base ten as other texts may spell it. -/
def inTen (cs : List Char) : Except Fault Int :=
  match parseInt quoted (String.ofList cs) with
  | .ok i => .ok i
  | .error _ => .error (.value .malformedNumber)

/-- Sums parts of a number in base sixty. -/
def inSixty (parts : List Int) : Int := parts.foldl (fun n p => n * 60 + p) 0

def int (text : String) : Except Fault Int := do
  let cs := dropGaps text.toList
  let (negative, cs) := splitSign cs
  let sign (n : Int) : Int := if negative then -n else n
  match cs with
  | [] => throw (.value .emptyNumber)
  | ['0'] => return 0
  | '0' :: 'b' :: ds => return sign (← inBase 2 ds)
  | '0' :: 'x' :: ds => return sign (← inBase 16 ds)
  | '0' :: ds => return sign (← inBase 8 ds)
  | _ =>
    if cs.contains ':' then return sign (inSixty (← (Tag.colonParts cs).mapM inTen))
    else return sign (← inTen cs)

def inTenFloat (cs : List Char) : Except Fault Binary64 :=
  match parseFloat (String.ofList cs) with
  | some x => .ok x
  | none => .error (.value .malformedNumber)

/-- Sums parts of a number in base sixty from the last, rounding at each step. -/
def floatInSixty (parts : List Binary64) : Binary64 :=
  let add (acc : Binary64 × Nat) (p : Binary64) : Binary64 × Nat :=
    (acc.1.add (p.mul (.ofInt acc.2)), acc.2 * 60)
  (parts.reverse.foldl add (.zero false, 1)).1

def float (text : String) : Except Fault Binary64 := do
  let cs := dropGaps (lowercase text).toList
  if cs.isEmpty then throw (.value .emptyNumber)
  let (negative, cs) := splitSign cs
  let sign (x : Binary64) : Binary64 := if negative then x.negate else x
  if cs = ".inf".toList then return .infinite negative
  else if cs = ".nan".toList then return .nan
  else if cs.contains ':' then return sign (floatInSixty (← (Tag.colonParts cs).mapM inTenFloat))
  else return sign (← inTenFloat cs)

def bool (text : String) : Except Fault Bool :=
  let w := lowercase text
  if ["yes", "true", "on"].contains w then .ok true
  else if ["no", "false", "off"].contains w then .ok false
  else .error (.value .unknownTruthValue)

/-- The fraction of a second in millionths, of which the first six digits count. -/
def micros (fraction : List Char) : Nat :=
  let ds := fraction.take 6
  Timestamp.number (ds ++ List.replicate (6 - ds.length) '0')

def timestamp (text : String) : Except Fault Scalar :=
  match Timestamp.parse text.toList with
  | none => .error (.value .malformedDate)
  | some t =>
    let date : Date := ⟨t.year, Timestamp.number t.month, Timestamp.number t.day⟩
    match t.time with
    | none => if date.IsValid then .ok (.date date) else .error (.value .impossibleDate)
    | some (hour, minute, second) =>
      let m : Moment := ⟨date, hour, minute, second, micros t.fraction, t.zone⟩
      if m.IsValid then .ok (.moment m) else .error (.value .impossibleDate)

def base64Value? (c : Char) : Option Nat :=
  if 'A' ≤ c && c ≤ 'Z' then some (c.toNat - 0x41)
  else if 'a' ≤ c && c ≤ 'z' then some (c.toNat - 0x61 + 26)
  else if c.isDigit then some (c.toNat - 0x30 + 52)
  else if c = '+' then some 62 else if c = '/' then some 63 else none

/-- Reads base sixty-four after `count` digits of a group of four, whose last bits `left` are still
to be written. What is no digit is skipped, and full padding ends the text. -/
def binaryFrom (count left pads : Nat) : List Char → Option Bytes
  | [] => if count = 0 then some [] else none
  | c :: rest =>
    if c = '=' then
      if 2 ≤ count then
        if 4 ≤ count + pads + 1 then some [] else binaryFrom count left (pads + 1) rest
      else binaryFrom count left pads rest
    else match base64Value? c with
      | none => binaryFrom count left pads rest
      | some v =>
        match count with
        | 0 => binaryFrom 1 v 0 rest
        | 1 => (binaryFrom 2 (v % 16) 0 rest).map ((left * 4 + v / 16).toUInt8 :: ·)
        | 2 => (binaryFrom 3 (v % 4) 0 rest).map ((left * 16 + v / 4).toUInt8 :: ·)
        | _ => (binaryFrom 0 0 0 rest).map ((left * 64 + v).toUInt8 :: ·)

/-- What is wrong with a text in base sixty-four that ends inside a group. -/
def binaryFlaw (text : List Char) : String :=
  let digits := text.countP fun c => (base64Value? c).isSome
  if digits % 4 = 1 then
    "Invalid base64-encoded string: number of data characters (" ++ toString digits ++
      ") cannot be 1 more than a multiple of 4"
  else "Incorrect padding"

def isAscii (c : Char) : Bool := c.toNat < 0x80

/-- The first run of characters that are not ASCII, as messages name it. -/
def strangers (text : List Char) : String :=
  let position := (text.takeWhile isAscii).length
  let place := match (text.drop position).takeWhile (!isAscii ·) with
    | [c] => "character \x27" ++ String.ofList (numbered c) ++ "\x27 in position " ++ toString position
    | run => "characters in position " ++ toString position ++ "-" ++
      toString (position + run.length - 1)
  "'ascii' codec can't encode " ++ place ++ ": ordinal not in range(128)"

/-- The bytes that a text in base sixty-four spells, or what is wrong with it. -/
def binary (text : List Char) : Except String Bytes :=
  if text.all isAscii then
    match binaryFrom 0 0 0 text with
    | some bs => .ok bs
    | none => .error ("failed to decode base64 data: " ++ binaryFlaw text)
  else .error ("failed to convert base64 data into ascii: " ++ strangers text)

/-- The value of a text under a tag, in a node that starts at a place. No text has a value under
the tags of signs and under those that nobody knows. -/
def ofText (m : Mark) (tag : Tag) (text : String) : Except Fault Scalar :=
  match tag with
  | .null => .ok .null
  | .bool => .bool <$> bool text
  | .int => .int <$> int text
  | .float => .float <$> float text
  | .timestamp => timestamp text
  | .str => .ok (.str text)
  | .binary =>
    match binary text.toList with
    | .ok bs => .ok (.bytes bs)
    | .error flaw => complainAt m flaw
  | _ => complainAt m ("could not determine a constructor for the tag " ++ quoted tag.name)

end ScalarValue

end Conveyor.Yaml

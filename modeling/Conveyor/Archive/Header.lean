import Conveyor.Files.Content
import Conveyor.Number.Decimal
import Conveyor.Text.Blank

/-!
Header blocks of tar archives: fixed fields of 512 bytes, texts that end at a zero byte, numbers in
octal digits or in binary, and a checksum over all of it.
-/

namespace Conveyor.Tar

open Conveyor.Number Conveyor.Text

def slice (block : Bytes) (start size : Nat) : Bytes := (block.drop start).take size

def fieldText (b : Bytes) : String := decodeLossy (b.takeWhile (· ≠ 0))

def bigEndian (b : Bytes) : Nat := b.foldl (fun n x => 256 * n + x.toNat) 0

/-- The value of octal digits with an optional sign. -/
def octal? (cs : List Char) : Option Int :=
  let (negative, digits) := splitSign cs
  if !digits.isEmpty && digits.all fun c => '0' ≤ c && c ≤ '7' then
    some (signed negative (ofDigits 8 (digits.map fun c => c.toNat - 0x30)))
  else none

/-- The number of a field; an empty field is zero. -/
def fieldNumber? (b : Bytes) : Option Int :=
  if b.headD 0 = 0x80 then some (bigEndian b.tail)
  else if b.headD 0 = 0xff then some ((bigEndian b.tail : Int) - Nat.pow 256 (b.length - 1))
  else
    let digits := b.takeWhile (· ≠ 0)
    if digits.any (0x80 ≤ ·) then none
    else
      let cs := trimChars (digits.map fun d => Char.ofNat d.toNat)
      if cs.isEmpty then some 0 else octal? cs

inductive Kind
  | file
  | hardLink
  | link
  | directory
  | special
  | longName
  | longLink
  | attributes
  | globalAttributes
  deriving DecidableEq, Repr

/-- The kind of a type flag. Unknown flags announce files. Archives are taken to have no files with
holes, whose flag is not known here. -/
def Kind.ofFlag (flag : UInt8) : Kind :=
  match Char.ofNat flag.toNat with
  | '1' => .hardLink
  | '2' => .link
  | '3' | '4' | '6' => .special
  | '5' => .directory
  | 'L' => .longName
  | 'K' => .longLink
  | 'x' | 'X' => .attributes
  | 'g' => .globalAttributes
  | _ => .file

/-- A header: what the following blocks are. -/
structure Header where
  name : String
  link : String
  kind : Kind
  size : Nat
  deriving DecidableEq, Repr

inductive HeaderFault
  | empty
  | truncated
  | endMark
  | invalid
  deriving DecidableEq, Repr

/-- The sum that the checksum field must hold; bytes may count as signed. -/
def checksums (block : Bytes) : List Int :=
  let counted := block.take 148 ++ block.drop 156
  let plain := counted.foldl (fun (n : Int) b => n + b.toNat) 256
  let signs := (counted.countP (0x80 ≤ ·) : Int)
  [plain, plain - 256 * signs]

def dropSlashes (s : String) : String :=
  String.ofList (s.toList.reverse.dropWhile (· = '/')).reverse

/-- The name of the member that a file with some name becomes. Members have no slashes in front; a name
that is kept as an attribute, since the field for it does not hold it, has none at its end either. -/
def memberName (name : String) : String :=
  let name := String.ofList (name.toList.dropWhile (· = '/'))
  if name.toList.all (·.val < 128) && name.length ≤ nameSize then name else dropSlashes name

/-- Reads a header. A size below zero, which no archiver writes, counts as zero. -/
def Header.ofBlock (block : Bytes) : Except HeaderFault Header := do
  if block.isEmpty then throw .empty
  if block.length < blockSize then throw .truncated
  if block.all (· = 0) then throw .endMark
  let number (start size : Nat) : Except HeaderFault Int :=
    match fieldNumber? (slice block start size) with
    | some n => .ok n
    | none => .error .invalid
  let sum ← number 148 8
  if !(checksums block).contains sum then throw .invalid
  for (start, width) in [(100, 8), (108, 8), (116, 8), (136, 12), (329, 8), (337, 8)] do
    let _ ← number start width
  let size ← number 124 12
  let flag := (slice block 156 1).headD 0
  let name := fieldText (slice block 0 100)
  let kind := if flag = 0 ∧ name.endsWith "/" then .directory else Kind.ofFlag flag
  let name := if kind = .directory then dropSlashes name else name
  let directory := fieldText (slice block 345 155)
  let name :=
    if directory.isEmpty ∨ kind = .longName ∨ kind = .longLink then name
    else directory ++ "/" ++ name
  return { name, link := fieldText (slice block 157 100), kind, size := size.toNat }

/-- Records of attributes: for each the name and the value. A record starts with its length. -/
def attributes : Nat → Bytes → Except HeaderFault (List (String × String))
  | 0, _ => .ok []
  | fuel + 1, b =>
    let digits := b.takeWhile fun c => 0x30 ≤ c && c ≤ 0x39
    let rest := b.drop digits.length
    let name := (rest.drop 1).takeWhile (· ≠ 0x3d)
    let valueStart := digits.length + 1 + name.length + 1
    if digits.isEmpty ∨ rest.head? ≠ some 0x20 ∨ name.isEmpty ∨ b.length < valueStart then .ok []
    else do
      let length := ofDigits 10 (digits.map fun d => d.toNat - 0x30)
      if length = 0 then throw .invalid
      let value := (b.take (length - 1)).drop valueStart
      return (decodeLossy name, decodeLossy value) :: (← attributes fuel (b.drop length))

def attributesOf (b : Bytes) : Except HeaderFault (List (String × String)) := attributes b.length b

def Header.withAttributes (h : Header) (entries : List (String × String)) : Header :=
  let apply (h : Header) (e : String × String) : Header :=
    match e.1 with
    | "path" => { h with name := dropSlashes e.2 }
    | "linkpath" => { h with link := e.2 }
    | "size" => { h with size := ((parseInt id e.2).toOption.getD 0).toNat }
    | _ => h
  entries.foldl apply h

end Conveyor.Tar

import Conveyor.Number.Decimal
import Conveyor.Text.Quoted
import Conveyor.Value.Basic

/-!
The text of a value. A text stands for itself; everything else is written as it is shown inside a
list, where texts are quoted.
-/

namespace Conveyor

open Conveyor.Text

namespace Scalar

/-- Bytes are shown as a quoted text with a mark in front. -/
def bytesShown (bs : Bytes) : String :=
  let cs := bs.map fun b => Char.ofNat b.toNat
  let q := quoteFor cs
  let shownByte (c : Char) : List Char :=
    if 0x7f ≤ c.toNat then '\\' :: 'x' :: hexDigits 2 c.toNat else quotedChar q c
  "b" ++ String.ofList (q :: cs.flatMap shownByte ++ [q])

/-- A scalar inside a list. Integers are taken to have no more digits than may be read, so that each has
a text. -/
def shown : Scalar → String
  | .null => "None"
  | .bool b => if b then "True" else "False"
  | .int i => toString i
  | .float x => x.text
  | .str s => quoted s
  | .bytes b => bytesShown b
  | .date d => d.shown
  | .moment t => t.shown

/-- A scalar on its own. -/
def text : Scalar → String
  | .str s => s
  | .date d => d.text
  | .moment t => t.text
  | s => s.shown

end Scalar

namespace Value

mutual

/-- A value inside a list. -/
def shown : Value → String
  | .scalar s => s.shown
  | .list items => "[" ++ ", ".intercalate (shownItems items) ++ "]"
  | .mapping entries => "\x7b" ++ ", ".intercalate (shownEntries entries) ++ "\x7d"
  | .set members =>
    if members.isEmpty then "set()"
    else "\x7b" ++ ", ".intercalate (members.map Scalar.shown) ++ "\x7d"
  | .pair a b => "(" ++ shown a ++ ", " ++ shown b ++ ")"
  | .loop isMapping => if isMapping then "\x7b...\x7d" else "[...]"

def shownItems : List Value → List String
  | [] => []
  | v :: rest => shown v :: shownItems rest

def shownEntries : List (Scalar × Value) → List String
  | [] => []
  | (k, v) :: rest => (k.shown ++ ": " ++ shown v) :: shownEntries rest

end

/-- A value on its own. -/
def text : Value → String
  | .scalar s => s.text
  | v => v.shown

def typeName : Value → String
  | .scalar .null => "NoneType"
  | .scalar (.bool _) => "bool"
  | .scalar (.int _) => "int"
  | .scalar (.float _) => "float"
  | .scalar (.str _) => "str"
  | .scalar (.bytes _) => "bytes"
  | .scalar (.date _) => "date"
  | .scalar (.moment _) => "datetime"
  | .list _ => "list"
  | .mapping _ => "dict"
  | .set _ => "set"
  | .pair _ _ => "tuple"
  | .loop isMapping => if isMapping then "dict" else "list"

/-- A value that counts as given: neither null nor false, not zero and not empty. -/
def isTruthy : Value → Bool
  | .scalar .null => false
  | .scalar (.bool b) => b
  | .scalar (.int i) => i ≠ 0
  | .scalar (.float x) => x.isNonzero
  | .scalar (.str s) => !s.isEmpty
  | .scalar (.bytes b) => !b.isEmpty
  | .list items => !items.isEmpty
  | .mapping entries => !entries.isEmpty
  | .set members => !members.isEmpty
  | _ => true

end Value

end Conveyor

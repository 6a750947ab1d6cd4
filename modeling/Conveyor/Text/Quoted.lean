import Conveyor.Text.Hex
import Conveyor.Text.Printable

/-!
Quoted texts. Single quotes are used, unless the text holds a single quote and no double quote; a
character that would not print is written by its number.
-/

namespace Conveyor.Text

/-- A character written by its number, as short as it can be. -/
def numbered (c : Char) : List Char :=
  if c.toNat ≤ 0xff then '\\' :: 'x' :: hexDigits 2 c.toNat
  else if c.toNat ≤ 0xffff then '\\' :: 'u' :: hexDigits 4 c.toNat
  else '\\' :: 'U' :: hexDigits 8 c.toNat

/-- How one character appears between the quotes `q`. -/
def quotedChar (q c : Char) : List Char :=
  if c = q || c = '\\' then ['\\', c]
  else if c = '\n' then ['\\', 'n']
  else if c = '\r' then ['\\', 'r']
  else if c = '\t' then ['\\', 't']
  else if isPrintable c then [c]
  else numbered c

def quoteFor (cs : List Char) : Char :=
  if cs.contains '\x27' && !cs.contains '\x22' then '\x22' else '\x27'

def quotedChars (cs : List Char) : List Char :=
  let q := quoteFor cs
  q :: cs.flatMap (quotedChar q) ++ [q]

/-- The text between quotes, as it is shown inside messages. -/
def quoted (s : String) : String := String.ofList (quotedChars s.toList)

def quotedList (ss : List String) : String :=
  "[" ++ ", ".intercalate (ss.map quoted) ++ "]"

end Conveyor.Text

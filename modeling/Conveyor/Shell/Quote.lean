import Conveyor.Text.Digit

/-!
Words for the shell. A word of safe characters stands for itself; any other word goes between single
quotes, and a single quote in it between double quotes.
-/

namespace Conveyor.Shell

/-- Characters that mean themselves wherever they stand in a word. -/
def isSafeChar (c : Char) : Bool :=
  c.isAlphanum || c = '_' || "@%+=:,./-".toList.contains c

/-- One character between single quotes. -/
def quotedWordChar (c : Char) : List Char :=
  if c = '\x27' then ['\x27', '\x22', '\x27', '\x22', '\x27'] else [c]

def quoteWordChars (cs : List Char) : List Char :=
  if cs.isEmpty then ['\x27', '\x27']
  else if cs.all isSafeChar then cs
  else '\x27' :: cs.flatMap quotedWordChar ++ ['\x27']

def quoteWord (s : String) : String := String.ofList (quoteWordChars s.toList)

end Conveyor.Shell

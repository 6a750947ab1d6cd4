import Conveyor.Text.Range

/-!
White space of every script, and the cutting of it from the ends of a text.
-/

namespace Conveyor.Text

/-- White space: the separators, tabulators, line ends and the four information separators. -/
def blankRanges : List CodeRange := [
  (0x9, 0xd), (0x1c, 0x20), (0x85, 0x85), (0xa0, 0xa0), (0x1680, 0x1680), (0x2000, 0x200a),
  (0x2028, 0x2029), (0x202f, 0x202f), (0x205f, 0x205f), (0x3000, 0x3000)]

def isBlank (c : Char) : Bool :=
  if c.toNat < 0x80 then (9 ≤ c.toNat && c.toNat ≤ 13) || (0x1c ≤ c.toNat && c.toNat ≤ 0x20)
  else inRanges blankRanges c

def trimEnd (cs : List Char) : List Char := (cs.reverse.dropWhile isBlank).reverse

def trimChars (cs : List Char) : List Char := trimEnd (cs.dropWhile isBlank)

def trim (s : String) : String := String.ofList (trimChars s.toList)

end Conveyor.Text
